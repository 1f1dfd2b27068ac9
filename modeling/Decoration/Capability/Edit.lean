import Decoration.Capability.Memo
import Decoration.Descriptor.Conversion

/-! The member decorators. Each works on a shared descriptor in place, or on a value that is read as
a descriptor. -/

namespace Decoration

variable {σ : Type}

namespace Edit

def defaultDeprecation : String := "This function will be removed in future versions."

def wrapMemoized (memo : MemoId) (key : String) (d : Descriptor) : Action σ Fault Descriptor := do
  let h ← Action.heap
  match d with
  | .data value w e c =>
    if h.isCallable value then return .data (← memo.wrap key value) w e c
    else Action.fail (.type (.notMethodOrGetter key))
  | .accessor (some getter) setter e c => return .accessor (some (← memo.wrap key getter)) setter e c
  | .accessor none .. => Action.fail (.type (.notMethodOrGetter key))

def wrapDeprecated (message key : String) (d : Descriptor) : Action σ Fault Descriptor := do
  let h ← Action.heap
  match d with
  | .data value w e c =>
    if h.isCallable value then
      return .data (.object (← (Capability.deprecated key message value).function)) w e c
    else Action.fail (.type (.notMethod key))
  | .accessor .. => Action.fail (.type (.notMethod key))

def apply (edit : Edit) (key : String) (extra : List Value) (d : Descriptor) :
    Action σ Fault Descriptor :=
  match edit with
  | readonly => pure (d.setWritable false)
  | nonenumerable => pure (d.setEnumerable false)
  | enumerable => pure (d.setEnumerable (extra.head?.any Value.isTruthy))
  | nonconfigurable => pure (d.setConfigurable false)
  | provide => pure (d.setValue (extra.head?.getD .undefined))
  | memoize memo => wrapMemoized memo key d
  | deprecated => wrapDeprecated ((extra.head?.bind Value.string?).getD defaultDeprecation) key d

def initial? : Edit → Option Descriptor
  | provide => some (.ordinary .undefined)
  | _ => none

def applyFresh (edit : Edit) (key : String) (extra : List Value) (d : Descriptor) :
    Action σ Fault Value := do
  let edited ← edit.apply key extra d
  return .descriptor (← Action.onHeap (·.addCell edited))

/-- The arguments are a target, a key, what to edit, and the decorator's own. -/
def construct (caller : Caller σ) (edit : Edit) (arguments : List Value) :
    Action σ Fault Value := do
  let key := (arguments[1]?.bind Value.string?).getD ""
  let extra := arguments.drop 3
  match arguments[2]?.getD .undefined with
  | .descriptor handle =>
    let edited ← edit.apply key extra ((← Action.heap).content handle)
    Action.modifyHeap (·.setContent handle edited)
    return .descriptor handle
  | .undefined =>
    match edit.initial? with
    | some d => edit.applyFresh key extra d
    | none => return .undefined
  | other => edit.applyFresh key extra (← Descriptor.ofValue caller other)

end Edit
end Decoration
