import Decoration.Number.Decimal
import Decoration.Text.Quoted

/-! Values are data; objects and descriptors are named by their place in the heap, so equality of
values is sameness: primitives by value, references by identity. -/

namespace Decoration

structure ObjectId where
  index : Nat
deriving DecidableEq, Repr, Inhabited

/-- Objects are numbered from 1 in the order of their creation. -/
def ObjectId.number (id : ObjectId) : Nat := id.index + 1

theorem ObjectId.number_pos (id : ObjectId) : 1 ≤ id.number := Nat.le_add_left 1 id.index

theorem ObjectId.number_injective {id id' : ObjectId} (h : id.number = id'.number) : id = id' := by
  cases id
  cases id'
  exact congrArg ObjectId.mk (Nat.succ.inj h)

structure Handle where
  index : Nat
deriving DecidableEq, Repr, Inhabited

inductive Value where
  | undefined
  | null
  | bool (value : Bool)
  | number (value : Number)
  | string (value : String)
  | object (id : ObjectId)
  | descriptor (handle : Handle)
deriving DecidableEq, Repr, Inhabited

namespace Value

def same (a b : Value) : Bool := a = b

def isTruthy : Value → Bool
  | undefined | null => false
  | bool value => value
  | number value => !(value.isZero || value.isNaN)
  | string value => value != ""
  | object _ | descriptor _ => true

def isUndefined : Value → Bool
  | undefined => true
  | _ => false

def object? : Value → Option ObjectId
  | object id => some id
  | _ => none

def string? : Value → Option String
  | string value => some value
  | _ => none

end Value
end Decoration
