import Decoration.Json

/-! JSON values read as records of named fields. -/

namespace Decoration.Json

/-- The fields of an object, or of the array that lists them in order. An object has each of its keys
once and no others; an array has the required number of fields at least. -/
def fields? (names : List String) (required : Nat) : Json → Option (String → Option Json)
  | object members =>
    if (members.all fun member => names.contains member.1) ∧ (members.map (·.1)).Nodup then
      some (List.lookup · members)
    else none
  | array items =>
    if required ≤ items.length ∧ items.length ≤ names.length then
      some fun name => items[names.idxOf name]?
    else none
  | _ => none

def string? : Json → Option String
  | string value => some value
  | _ => none

def bool? : Json → Option Bool
  | bool value => some value
  | _ => none

def list? (read : Json → Option α) : Json → Option (List α)
  | array items => items.mapM read
  | _ => none

def optional? (read : Json → Option α) : Json → Option (Option α)
  | null => some none
  | value => (read value).map some

end Decoration.Json
