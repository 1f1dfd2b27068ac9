import Decoration.Object.Access

/-! Memo tables. A wrapped function answers from its table, which keeps results by the site of the
wrapping, the receiver, and the text of the arguments. -/

namespace Decoration

variable {σ : Type}

namespace Memo

def find? (m : Memo) (key : MemoKey) : Option Value := m.results.lookup key

def insert (m : Memo) (key : MemoKey) (result : Value) : Memo :=
  { m with results := (key, result) :: m.results.filter (·.1 ≠ key) }

def size (m : Memo) : Nat := m.results.length

def clear (m : Memo) : Memo := { m with results := [] }

/-- References are told apart by identity, everything else by type and text. -/
def argumentText (h : Heap) : Value → String
  | .object id => "object#" ++ toString id.number
  | .descriptor handle => "descriptor@" ++ toString handle.index
  | primitive => h.typeName primitive ++ ":" ++ h.display primitive

/-- An object is known by its number. Other receivers are not told apart. -/
def receiverNumber (receiver : Value) : Nat := receiver.object?.elim 0 ObjectId.number

def argumentsText (h : Heap) (arguments : List Value) : String :=
  ",".intercalate (arguments.map (argumentText h))

end Memo

def MemoId.wrap (id : MemoId) (key : String) (wrapped : Value) : Action σ ε Value := do
  let memo := (← Action.heap).memo id
  Action.modifyHeap (·.setMemo id { memo with nextSite := memo.nextSite + 1 })
  return .object (← (Capability.memoized key id memo.nextSite wrapped).function)

/-- Answers a call of a wrapped function. Only a success is kept. -/
def MemoId.call (caller : Caller σ) (id : MemoId) (site : Nat) (wrapped receiver : Value)
    (arguments : List Value) : Action σ Fault Value := do
  let h ← Action.heap
  let key : MemoKey := ⟨site, Memo.receiverNumber receiver, Memo.argumentsText h arguments⟩
  match (h.memo id).find? key with
  | some result => pure result
  | none =>
    let result ← wrapped.call caller receiver arguments
    Action.modifyHeap fun h => h.setMemo id ((h.memo id).insert key result)
    return result

end Decoration
