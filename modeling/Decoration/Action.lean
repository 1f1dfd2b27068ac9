import Decoration.Event

/-! Actions: from a world to an outcome, the next world, and the events in between. A failed action
leaves the world as it was when it failed. -/

namespace Decoration

structure World (σ : Type) where
  heap : Heap
  host : σ

/-- `exhausted` says that calls were nested deeper than allowed. -/
inductive Outcome (ε α : Type) where
  | ok (value : α)
  | failed (fault : ε)
  | exhausted
deriving DecidableEq, Repr

structure Run (σ ε α : Type) where
  outcome : Outcome ε α
  world : World σ
  events : List Moment

def Action (σ ε α : Type) : Type := World σ → Run σ ε α

namespace Action

variable {σ ε ε' α β : Type}

protected def pure (a : α) : Action σ ε α := fun w => ⟨.ok a, w, []⟩

protected def bind (x : Action σ ε α) (f : α → Action σ ε β) : Action σ ε β := fun w =>
  match x w with
  | ⟨.ok a, w', events⟩ =>
    let r := f a w'
    ⟨r.outcome, r.world, events ++ r.events⟩
  | ⟨.failed e, w', events⟩ => ⟨.failed e, w', events⟩
  | ⟨.exhausted, w', events⟩ => ⟨.exhausted, w', events⟩

instance : Monad (Action σ ε) where
  pure := Action.pure
  bind := Action.bind

instance : LawfulMonad (Action σ ε) :=
  LawfulMonad.mk' (Action σ ε)
    (fun x => by
      funext w
      show Action.bind x Action.pure w = x w
      unfold Action.bind Action.pure
      rcases x w with ⟨outcome, w', events⟩
      cases outcome <;> simp)
    (fun a f => by
      funext w
      show Action.bind (Action.pure a) f w = f a w
      simp [Action.bind, Action.pure])
    (fun x f g => by
      funext w
      show Action.bind (Action.bind x f) g w = Action.bind x (fun a => Action.bind (f a) g) w
      unfold Action.bind
      rcases x w with ⟨outcome, w', events⟩
      cases outcome with
      | ok a =>
        dsimp only
        rcases f a w' with ⟨outcome, w'', events'⟩
        cases outcome <;> simp
      | failed => rfl
      | exhausted => rfl)

def fail (e : ε) : Action σ ε α := fun w => ⟨.failed e, w, []⟩

def exhausted : Action σ ε α := fun w => ⟨.exhausted, w, []⟩

def heap : Action σ ε Heap := fun w => ⟨.ok w.heap, w, []⟩

def setHeap (h : Heap) : Action σ ε Unit := fun w => ⟨.ok (), { w with heap := h }, []⟩

def onHeap (f : Heap → α × Heap) : Action σ ε α := fun w =>
  let (a, h) := f w.heap
  ⟨.ok a, { w with heap := h }, []⟩

def modifyHeap (f : Heap → Heap) : Action σ ε Unit := onHeap fun h => ((), f h)

def onWorld (f : World σ → α × World σ) : Action σ ε α := fun w =>
  let (a, w') := f w
  ⟨.ok a, w', []⟩

def ofExcept (x : Except ε α) : Action σ ε α :=
  match x with
  | .ok a => pure a
  | .error e => fail e

def emit (e : Event) : Action σ ε Unit := fun w => ⟨.ok (), w, [⟨w.heap, e⟩]⟩

def report (r : Report) : Action σ ε Unit := emit (.report r)

def mapFault (f : Heap → ε → ε') (x : Action σ ε α) : Action σ ε' α := fun w =>
  match x w with
  | ⟨.ok a, w', events⟩ => ⟨.ok a, w', events⟩
  | ⟨.failed e, w', events⟩ => ⟨.failed (f w'.heap e), w', events⟩
  | ⟨.exhausted, w', events⟩ => ⟨.exhausted, w', events⟩

end Action

inductive Request where
  | call (receiver : Value)
  | construct
deriving DecidableEq, Repr

def Caller (σ : Type) : Type :=
  Capability → Request → List Value → Action σ Fault Value

end Decoration
