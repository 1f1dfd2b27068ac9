/-! What stands between the tokens of TOML text. Line ends are single characters here. -/

namespace Decoration.Toml

def joinLineEnds : List Char → List Char
  | '\r' :: '\n' :: rest => '\n' :: joinLineEnds rest
  | c :: rest => c :: joinLineEnds rest
  | [] => []

def isBlank (c : Char) : Bool := c == ' ' || c == '\t'

def isTextChar (c : Char) : Bool := c == '\t' || (' ' ≤ c && c != '\x7f')

def skipBlank (cs : List Char) : List Char := cs.dropWhile isBlank

def skipComment : List Char → List Char
  | '#' :: rest => rest.dropWhile isTextChar
  | cs => cs

def lineEnd? (cs : List Char) : Option (List Char) :=
  match skipComment (skipBlank cs) with
  | [] => some []
  | '\n' :: rest => some rest
  | _ => none

def skipLines : (inComment : Bool) → List Char → List Char
  | _, [] => []
  | inComment, c :: rest =>
    if c = '\n' then skipLines false rest
    else if inComment && isTextChar c then skipLines true rest
    else if !inComment && isBlank c then skipLines false rest
    else if !inComment && c = '#' then skipLines true rest
    else c :: rest

end Decoration.Toml
