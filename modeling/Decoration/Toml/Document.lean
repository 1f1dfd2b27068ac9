import Decoration.Toml.Value

/-! TOML documents: lines that start tables and lines that assign to keys. -/

namespace Decoration.Toml

inductive Statement where
  | table (path : List String)
  | item (path : List String)
  | assign (path : List String) (value : Setting)

def statement? : List Char → Option (Statement × List Char)
  | '[' :: '[' :: cs => do
    let (path, cs) ← key? cs
    match cs with
    | ']' :: ']' :: rest => return (.item path, ← lineEnd? rest)
    | _ => none
  | '[' :: cs => do
    let (path, cs) ← key? cs
    match cs with
    | ']' :: rest => return (.table path, ← lineEnd? rest)
    | _ => none
  | cs => do
    let ((path, v), cs) ← assignment? value? cs
    return (.assign path v, ← lineEnd? cs)

def statements : Nat → List Char → Option (List Statement)
  | 0, _ => none
  | n + 1, cs =>
    match skipBlank cs with
    | [] => some []
    | '\n' :: rest => statements n rest
    | '#' :: rest => (lineEnd? ('#' :: rest)).bind (statements n)
    | cs => do
      let (statement, rest) ← statement? cs
      return statement :: (← statements n rest)

structure Document where
  header : List String := []
  entries : Entries := []

def Document.add (d : Document) : Statement → Option Document
  | .table path => (d.entries.startTable path).map ({ header := path, entries := · })
  | .item path => (d.entries.startItem path).map ({ header := path, entries := · })
  | .assign path v =>
    (d.entries.assignUnder d.header path v).map ({ d with entries := · })

def skipMark : List Char → List Char
  | '\ufeff' :: rest => rest
  | cs => cs

def read? (s : String) : Option Setting := do
  let cs := joinLineEnds (skipMark s.toList)
  let lines ← statements (cs.length + 1) cs
  let document ← lines.foldlM Document.add {}
  return (Node.table .header document.entries).setting

def settings : Setting.Notation where
  allowsSurplus := true
  isNothing
    | .table [] | .list [] => true
    | _ => false

end Decoration.Toml
