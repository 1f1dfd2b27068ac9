/-! Settings as a tree, whatever notation they were written in. -/

namespace Decoration

inductive Setting where
  | flag (value : Bool)
  | text (value : String)
  | list (items : List Setting)
  | table (entries : List (String × Setting))
  | blank
  | other
deriving Repr, Inhabited

namespace Setting

/-- Where notations differ. A list may stand for a table with the fields in order, and then it may or
may not have surplus items. A name may be written as a table with that one key, and `isNothing` says
what is under the key. -/
structure Notation where
  allowsSurplus : Bool
  isNothing : Setting → Bool

def fields? (n : Notation) (names : List String) : Setting → Option (String → Option Setting)
  | table entries =>
    if entries.all fun entry => names.contains entry.1 then some (List.lookup · entries)
    else none
  | list items =>
    if items.length ≤ names.length ∨ n.allowsSurplus then
      some fun name => items[names.idxOf name]?
    else none
  | _ => none

def flag? : Setting → Option Bool
  | flag value => some value
  | _ => none

def name? (n : Notation) : Setting → Option String
  | text name => some name
  | table [(name, payload)] => if n.isNothing payload then some name else none
  | _ => none

end Setting
end Decoration
