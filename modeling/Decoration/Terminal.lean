/-! Text for a terminal, in pieces that may have a style. -/

namespace Decoration.Terminal

inductive Color where
  | green
  | yellow
  | cyan
  | white
deriving DecidableEq, Repr

structure Style where
  color : Option Color := none
  bold : Bool := false
deriving DecidableEq, Repr

structure Piece where
  text : String
  style : Option Style := none
deriving DecidableEq, Repr

def Color.code : Color → String
  | green => "2"
  | yellow => "3"
  | cyan => "6"
  | white => "7"

def escape (code : String) : String := "\x1b[" ++ code ++ "m"

def Style.start (s : Style) : String :=
  escape "0" ++ (if s.bold then escape "1" else "") ++
    s.color.elim "" fun color => escape ("3" ++ color.code)

def Piece.render (colored : Bool) (p : Piece) : String :=
  match p.style with
  | some style => if colored then style.start ++ p.text ++ escape "0" else p.text
  | none => p.text

def render (colored : Bool) (pieces : List Piece) : String :=
  String.join (pieces.map (Piece.render colored))

def plain (text : String) : Piece := { text }

def newline : Piece := plain "\n"

def colored (color : Color) (text : String) : Piece := { text, style := some { color } }

structure Preference where
  noColor : Option String := none
  term : Option String := none
  requested : Option String := none
deriving DecidableEq, Repr

/-- Colors are used when they are asked for, or when nothing was settled and the terminal is known
and not dumb. One variable rules them out by being there at all. -/
def Preference.usesColor (p : Preference) : Bool :=
  if p.noColor.isSome then false
  else if p.requested = some "always" then true
  else if p.requested = some "never" then false
  else p.term.any (· != "dumb")

end Decoration.Terminal
