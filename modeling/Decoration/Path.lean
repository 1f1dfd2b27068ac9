/-! Paths of files, as text with slashes. -/

namespace Decoration

/-- The text between slashes. An absolute path starts with an empty segment. -/
structure Path where
  segments : List String
deriving DecidableEq, Repr, Inhabited

namespace Path

def ofText (text : String) : Path := ⟨text.splitOn "/"⟩

def text (p : Path) : String := "/".intercalate p.segments

def isTrivial (segment : String) : Bool := segment == "" || segment == "."

def trimmed (segments : List String) : List String :=
  segments.take 1 ++ ((segments.drop 1).reverse.dropWhile isTrivial).reverse

def parent? (p : Path) : Option Path :=
  match trimmed p.segments with
  | [] => none
  | [only] => if only = "" then none else some ⟨[""]⟩
  | ["", _] => some ⟨["", ""]⟩
  | segments => some ⟨trimmed segments.dropLast⟩

def parents : Nat → Path → List Path
  | 0, _ => []
  | n + 1, p =>
    match p.parent? with
    | some parent => parent :: parents n parent
    | none => []

def ancestors (p : Path) : List Path := p.parents (p.segments.length + 1)

def child (p : Path) (name : String) : Path :=
  match p.segments.getLast? with
  | some "" => ⟨p.segments.dropLast ++ [name]⟩
  | _ => ⟨p.segments ++ [name]⟩

end Path
end Decoration
