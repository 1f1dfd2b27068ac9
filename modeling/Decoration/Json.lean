import Decoration.Number

/-! JSON values. An integer stays apart from a number written with a fraction or an exponent, and
an object keeps its members as they were written. -/

namespace Decoration

inductive Json where
  | null
  | bool (value : Bool)
  | integer (value : Int)
  | real (value : Number)
  | string (value : String)
  | array (items : List Json)
  | object (members : List (String × Json))
deriving Repr, Inhabited

namespace Json

def insertMember (key : String) (value : Json) : List (String × Json) → List (String × Json)
  | [] => [(key, value)]
  | m :: rest =>
    if key < m.1 then (key, value) :: m :: rest else m :: insertMember key value rest

mutual

/-- Members ordered by key, and of several with one key only the last. -/
def canonical : Json → Json
  | array items => array (canonicalItems items)
  | object members => object (canonicalMembers members)
  | other => other

def canonicalItems : List Json → List Json
  | [] => []
  | item :: rest => canonical item :: canonicalItems rest

def canonicalMembers : List (String × Json) → List (String × Json)
  | [] => []
  | member :: rest =>
    let others := canonicalMembers rest
    let (key, value) := canonicalMember member
    if others.any (·.1 == key) then others else insertMember key value others

def canonicalMember : String × Json → String × Json
  | (key, value) => (key, canonical value)

end

end Json
end Decoration
