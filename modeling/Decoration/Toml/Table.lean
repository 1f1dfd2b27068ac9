import Decoration.Setting

/-! Tables of TOML while they are filled in. How a table came about decides what may still be added to
it. -/

namespace Decoration.Toml

/-- A table without a header of its own came about as part of a longer header or of a dotted key. -/
inductive Origin where
  | header
  | partOfHeader
  | partOfKey
deriving DecidableEq, Repr

inductive Node where
  | leaf (value : Setting)
  | table (origin : Origin) (entries : List (String × Node))
  | series (earlier : List Node) (latest : List (String × Node))
deriving Inhabited

abbrev Entries := List (String × Node)

def Entries.insert (key : String) (node : Node) : Entries → Entries
  | [] => [(key, node)]
  | entry :: rest => if entry.1 = key then (key, node) :: rest else entry :: insert key node rest

/-- Changes the entries of the table at a path, and makes the tables on the way that are missing. A
dotted key does not reach into a table that has a header. -/
def Entries.update (isKey : Bool) (f : Origin → Entries → Option Entries) :
    List String → Origin → Entries → Option Entries
  | [], origin, entries => f origin entries
  | key :: path, _, entries =>
    match entries.lookup key with
    | none =>
      let origin := if isKey then .partOfKey else .partOfHeader
      (update isKey f path origin []).map fun inner => insert key (.table origin inner) entries
    | some (.leaf _) => none
    | some (.table origin inner) =>
      if isKey && origin == .header then none
      else
        (update isKey f path origin inner).map fun inner => insert key (.table origin inner) entries
    | some (.series earlier latest) =>
      (update isKey f path .header latest).map fun latest =>
        insert key (.series earlier latest) entries

def Entries.assign (path : List String) (value : Setting) (entries : Entries) : Option Entries :=
  let tables := path.dropLast
  let key := path.getLastD ""
  let place (origin : Origin) (inner : Entries) : Option Entries :=
    if (origin == .partOfKey) == tables.isEmpty || (inner.lookup key).isSome then none
    else some (insert key (.leaf value) inner)
  update true place tables .header entries

def Entries.startTable (path : List String) (entries : Entries) : Option Entries :=
  let key := path.getLastD ""
  let place (_ : Origin) (inner : Entries) : Option Entries :=
    match inner.lookup key with
    | none => some (insert key (.table .header []) inner)
    | some (.table .partOfHeader own) => some (insert key (.table .header own) inner)
    | some _ => none
  update false place path.dropLast .header entries

def Entries.startItem (path : List String) (entries : Entries) : Option Entries :=
  let key := path.getLastD ""
  let place (_ : Origin) (inner : Entries) : Option Entries :=
    match inner.lookup key with
    | none => some (insert key (.series [] []) inner)
    | some (.series earlier latest) =>
      some (insert key (.series (.table .header latest :: earlier) []) inner)
    | some _ => none
  update false place path.dropLast .header entries

def Entries.assignUnder (header path : List String) (value : Setting) (entries : Entries) :
    Option Entries :=
  update false (fun _ inner => inner.assign path value) header .header entries

mutual

def Node.setting : Node → Setting
  | .leaf value => value
  | .table _ entries => .table (entrySettings entries)
  | .series earlier latest =>
    .list ((nodeSettings earlier).reverse ++ [.table (entrySettings latest)])

def nodeSettings : List Node → List Setting
  | [] => []
  | node :: rest => node.setting :: nodeSettings rest

def entrySettings : List (String × Node) → List (String × Setting)
  | [] => []
  | entry :: rest => entrySetting entry :: entrySettings rest

def entrySetting : String × Node → String × Setting
  | (key, node) => (key, node.setting)

end

end Decoration.Toml
