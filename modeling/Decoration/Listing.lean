import Decoration.Heap
import Decoration.Terminal

/-! The tables of properties that show what a declaration has become. -/

namespace Decoration

open Terminal (Piece plain newline colored)

namespace Descriptor

def kindLabel (h : Heap) : Descriptor → String
  | data value .. => if h.isCallable value then "method" else "value"
  | accessor (some _) (some _) .. => "get/set"
  | accessor (some _) none .. => "get"
  | accessor none (some _) .. => "set"
  | accessor none none .. => "accessor"

def flagsText (d : Descriptor) : String :=
  String.ofList [
    d.writable?.elim ' ' fun w => if w then 'w' else '-',
    if d.enumerable then 'e' else '-',
    if d.configurable then 'c' else '-']

end Descriptor

structure Listing.Row where
  key : String
  kind : String
  flags : String
deriving DecidableEq, Repr

structure Listing.Section where
  label : String
  rows : List Listing.Row
deriving DecidableEq, Repr

structure Listing where
  keyword : String
  name : String
  sections : List Listing.Section
deriving DecidableEq, Repr

namespace Listing

def rows (h : Heap) (hidden : List String) (id : ObjectId) : List Row :=
  ((h.object id).properties.entries.filter (!hidden.contains ·.1)).map fun (key, d) =>
    ⟨key, d.kindLabel h, d.flagsText⟩

/-- The links between the two objects of a class are not listed. -/
def hiddenKeys : List String := ["prototype", "constructor"]

def ofObject (h : Heap) (name : String) (object : ObjectId) : Listing :=
  ⟨"object", name, [⟨"own", rows h [] object⟩]⟩

def ofClass (h : Heap) (name : String) (constructor : ObjectId) : Listing :=
  let prototype := ((h.own? constructor "prototype").bind Descriptor.value?).bind Value.object?
  ⟨"class", name,
    ⟨"static", rows h hiddenKeys constructor⟩ ::
      (prototype.map fun object => ⟨"prototype", rows h hiddenKeys object⟩).toList⟩

def padded (width : Nat) (s : String) : String :=
  s ++ String.ofList (List.replicate (width - s.length) ' ')

def Row.pieces (r : Row) : List Piece :=
  [plain ("    " ++ padded 16 r.key), ⟨padded 10 r.kind, some { color := some .green, bold := true }⟩,
    colored .white r.flags, newline]

def Section.pieces (s : Section) : List Piece :=
  if s.rows.isEmpty then []
  else colored .white ("  " ++ s.label) :: newline :: s.rows.flatMap Row.pieces

def pieces (l : Listing) : List Piece :=
  [colored .cyan l.keyword, plain " ", ⟨l.name, some { bold := true }⟩, newline] ++
    l.sections.flatMap Section.pieces

end Listing
end Decoration
