import Decoration.Object.Access

/-! Reading a value as a property descriptor. -/

namespace Decoration

variable {σ : Type}

def ObjectId.field? (caller : Caller σ) (id : ObjectId) (key : String) :
    Action σ Fault (Option Value) := do
  if (← Action.heap).has id key then some <$> id.get caller key else pure none

def ObjectId.flag (caller : Caller σ) (id : ObjectId) (key : String) : Action σ Fault Bool := do
  return (← id.field? caller key).any Value.isTruthy

namespace Descriptor

def checkHalf (half : Option Value) : Action σ Fault Unit := do
  let h ← Action.heap
  match half with
  | none => pure ()
  | some v =>
    if v.isUndefined || h.isCallable v then pure ()
    else Action.fail (.type (.notAccessorHalf (h.display v)))

/-- Reads a description field by field. If it has a half of an accessor it may have neither a value
nor `writable`. -/
def ofObject (caller : Caller σ) (id : ObjectId) : Action σ Fault Descriptor := do
  let enumerable ← id.flag caller "enumerable"
  let configurable ← id.flag caller "configurable"
  let getter ← id.field? caller "get"
  let setter ← id.field? caller "set"
  checkHalf getter
  checkHalf setter
  if getter.isSome || setter.isSome then
    if (← id.field? caller "value").isSome then Action.fail (.type .mixedDescription)
    if (← id.field? caller "writable").isSome then Action.fail (.type .mixedDescription)
    return .accessor (getter.filter (!·.isUndefined)) (setter.filter (!·.isUndefined))
      enumerable configurable
  else
    let value ← id.field? caller "value"
    let writable ← id.flag caller "writable"
    return .data (value.getD .undefined) writable enumerable configurable

/-- A handle gives a copy of what it holds, an object is read as a description, and nothing else is
one. -/
def ofValue (caller : Caller σ) (v : Value) : Action σ Fault Descriptor := do
  let h ← Action.heap
  match v with
  | .descriptor handle => pure (h.content handle)
  | .object id => ofObject caller id
  | other => Action.fail (.type (.notDescription (h.display other)))

end Descriptor
end Decoration
