import Decoration.Heap

/-! How values are named in messages. The text of a reference depends on the heap. -/

namespace Decoration

def Value.typeName (isFunction : ObjectId → Bool) : Value → String
  | .undefined => "undefined"
  | .null => "null"
  | .bool _ => "boolean"
  | .number _ => "number"
  | .string _ => "string"
  | .object id => if isFunction id then "function" else "object"
  | .descriptor _ => "descriptor"

namespace Heap

def typeName (h : Heap) (v : Value) : String :=
  v.typeName fun id => (h.object id).capability?.isSome

def constructorName? (h : Heap) (id : ObjectId) : Option String := do
  let d ← h.own? id "constructor"
  let constructor ← (← d.value?).object?
  (h.object constructor).className?

def describe (h : Heap) (id : ObjectId) : String :=
  match (h.object id).kind with
  | .classValue name => name
  | .function capability => "[function " ++ capability.name ++ "]"
  | .ordinary =>
    match h.constructorName? id with
    | some name => name ++ ".prototype"
    | none => "[object #" ++ toString id.number ++ "]"

def displayWithin (h : Heap) : Nat → Value → String
  | _, .undefined => "undefined"
  | _, .null => "null"
  | _, .bool b => Descriptor.boolText b
  | _, .number n => n.text
  | _, .string s => Text.quote s
  | _, .object id => h.describe id
  | 0, .descriptor _ => "[descriptor]"
  | n + 1, .descriptor handle => (h.content handle).render (displayWithin h n)

def display (h : Heap) (v : Value) : String := h.displayWithin h.cells.size v

end Heap
end Decoration
