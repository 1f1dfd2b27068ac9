import Decoration.Action
import Decoration.Heap.Display

/-! Reading, writing and calling through the object model. Getters, setters and methods run through
the caller. -/

namespace Decoration

variable {σ : Type}

def Value.call (caller : Caller σ) (callee receiver : Value) (arguments : List Value) :
    Action σ Fault Value := do
  let h ← Action.heap
  match h.capability? callee with
  | some capability => caller capability (.call receiver) arguments
  | none => Action.fail (.type (.notFunction (h.display callee)))

namespace ObjectId

def define (id : ObjectId) (key : String) (d : Descriptor) : Action σ Fault Unit := do
  let h ← Action.heap
  Action.setHeap (← Action.ofExcept (h.define id key d))

def preventExtensions (id : ObjectId) : Action σ Fault Unit :=
  Action.modifyHeap (·.preventExtensions id)

def valueOf (caller : Caller σ) (id : ObjectId) : Descriptor → Action σ Fault Value
  | .data value .. => pure value
  | .accessor (some getter) .. => getter.call caller (.object id) []
  | .accessor none .. => pure .undefined

def get (caller : Caller σ) (id : ObjectId) (key : String) : Action σ Fault Value := do
  match (← Action.heap).find? id key with
  | some d => id.valueOf caller d
  | none => pure .undefined

def write (id : ObjectId) (key : String) (value : Value) : Action σ Fault Unit := do
  let h ← Action.heap
  match h.own? id key with
  | some (.data _ w e c) =>
    Action.setHeap (h.setObject id ((h.object id).insert key (.data value w e c)))
  | _ => id.define key (.ordinary value)

/-- Assignment. The first property found along the chain decides: a setter is called, a property that
cannot be written is an error, and otherwise the object itself is written. -/
def put (caller : Caller σ) (id : ObjectId) (key : String) (value : Value) :
    Action σ Fault Unit := do
  match (← Action.heap).find? id key with
  | some (.accessor _ (some setter) ..) => do
    let _ ← setter.call caller (.object id) [value]
    pure ()
  | some (.accessor _ none ..) => Action.fail (.type (.getterOnly key))
  | some (.data _ false ..) => Action.fail (.type (.readOnly key))
  | _ => id.write key value

def invoke (caller : Caller σ) (id : ObjectId) (key : String) (arguments : List Value) :
    Action σ Fault Value := do
  let method ← id.get caller key
  if (← Action.heap).isCallable method then method.call caller (.object id) arguments
  else Action.fail (.type (.notFunction key))

def instantiate (caller : Caller σ) (id : ObjectId) : Action σ Fault ObjectId := do
  match ((← Action.heap).object id).className? with
  | none => Action.fail (.type .notClass)
  | some name =>
    match ← id.get caller "prototype" with
    | .object prototype => Action.onHeap (·.addObject { prototype := some prototype })
    | _ => Action.fail (.type (.noPrototype name))

end ObjectId

def Capability.function (c : Capability) : Action σ ε ObjectId :=
  Action.onHeap (·.addObject { kind := .function c })

end Decoration
