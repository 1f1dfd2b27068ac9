import Decoration.Toml.Scalar
import Decoration.Toml.Table

/-! The keys of TOML, names or quoted text with dots between their parts, and its values, with arrays over
several lines and tables within one. -/

namespace Decoration.Toml

def isNameChar (c : Char) : Bool := c.isAlphanum || c == '_' || c == '-'

def keyPart? : List Char → Option (String × List Char)
  | '"' :: rest => quotedLine '"' rest
  | '\'' :: rest => quotedLine '\'' rest
  | cs =>
    let name := cs.takeWhile isNameChar
    if name.isEmpty then none else some (String.ofList name, cs.dropWhile isNameChar)

def keyParts : Nat → List Char → Option (List String × List Char)
  | 0, _ => none
  | n + 1, cs => do
    let (part, cs) ← keyPart? (skipBlank cs)
    match skipBlank cs with
    | '.' :: rest =>
      let (parts, rest) ← keyParts n rest
      return (part :: parts, rest)
    | rest => return ([part], rest)

def nestingLimit : Nat := 80

def key? (cs : List Char) : Option (List String × List Char) := keyParts (nestingLimit - 1) cs

abbrev ValueReader := List Char → Option (Setting × List Char)

def arrayItems (value : ValueReader) : Nat → List Char → Option (List Setting × List Char)
  | 0, _ => none
  | n + 1, cs =>
    match skipLines false cs with
    | ']' :: rest => some ([], rest)
    | cs => do
      let (item, cs) ← value cs
      match skipLines false cs with
      | ',' :: rest =>
        let (items, rest) ← arrayItems value n rest
        return (item :: items, rest)
      | ']' :: rest => return ([item], rest)
      | _ => none

def assignment? (value : ValueReader) (cs : List Char) :
    Option ((List String × Setting) × List Char) := do
  let (path, cs) ← key? cs
  match cs with
  | '=' :: rest =>
    let (v, rest) ← value (skipBlank rest)
    return ((path, v), skipBlank rest)
  | _ => none

def inlineAssignments (value : ValueReader) :
    Nat → List Char → Option (List (List String × Setting) × List Char)
  | 0, _ => none
  | n + 1, cs => do
    let (assignment, cs) ← assignment? value cs
    match cs with
    | ',' :: rest =>
      let (assignments, rest) ← inlineAssignments value n rest
      return (assignment :: assignments, rest)
    | '\x7d' :: rest => return ([assignment], rest)
    | _ => none

def inlineTable (value : ValueReader) (cs : List Char) : Option (Setting × List Char) := do
  match skipBlank cs with
  | '\x7d' :: rest => return (.table [], rest)
  | cs =>
    let (assignments, rest) ← inlineAssignments value cs.length cs
    let entries ← assignments.foldlM (fun (entries : Entries) (path, v) => entries.assign path v) []
    return ((Node.table .header entries).setting, rest)

def value : Nat → ValueReader
  | 0, cs => scalar? cs
  | depth + 1, cs =>
    match cs with
    | '[' :: rest =>
      (arrayItems (value depth) (rest.length + 1) rest).map fun (items, rest) => (.list items, rest)
    | '\x7b' :: rest => inlineTable (value depth) rest
    | _ => scalar? cs

def value? : ValueReader := value (nestingLimit - 1)

end Decoration.Toml
