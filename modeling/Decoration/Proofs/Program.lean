import Decoration.Proofs.Stepwise.Engine
import Decoration.Proofs.Stepwise.Library

/-! Programs that act on objects through the object model alone, as host functions or on their own. -/

namespace Decoration

open Decoration.Action

variable {σ ε α : Type} {S : Heap → Heap → Prop}

/-- What can be done to the heap from outside. Descriptor handles and memo tables are written as they
are; objects only through the object model. -/
inductive Operation where
  | create (kind : ObjectKind) (prototype : Option ObjectId)
  | define (id : ObjectId) (key : String) (d : Descriptor)
  | put (id : ObjectId) (key : String) (value : Value)
  | get (id : ObjectId) (key : String)
  | invoke (id : ObjectId) (key : String) (arguments : List Value)
  | preventExtensions (id : ObjectId)
  | instantiate (id : ObjectId)
  | respond (capability : Capability) (request : Request) (arguments : List Value)
  | share (d : Descriptor)
  | edit (handle : Handle) (d : Descriptor)
  | memorize (memo : MemoId) (table : Memo)
  | evaluateClass (config : Config) (decl : ClassDecl) (env : Environment)
  | evaluateLiteral (config : Config) (literal : ObjectLiteral) (env : Environment)

inductive Reply where
  | done (value : Value)
  | failed (fault : Fault)
  | rejected (fault : DecorationFault)

/-- Operations one after another, each chosen in sight of the world and of the replies so far. A
program keeps a state of its own, and may go on after a failure. -/
inductive Program (σ : Type) where
  | finish (result : Except Fault Value)
  | keep (state : σ) (rest : Program σ)
  | look (next : World σ → Program σ)
  | perform (operation : Operation) (next : Reply → Program σ)

namespace Operation

def reply (value : α → Value) (fault : ε → Reply) (x : Action σ ε α) : Action σ Fault Reply :=
  fun w =>
    match x w with
    | ⟨.ok a, w', events⟩ => ⟨.ok (.done (value a)), w', events⟩
    | ⟨.failed e, w', events⟩ => ⟨.ok (fault e), w', events⟩
    | ⟨.exhausted, w', events⟩ => ⟨.exhausted, w', events⟩

def perform (caller : Caller σ) : Operation → Action σ Fault Reply
  | create kind prototype =>
    reply Value.object Reply.failed (onHeap (·.addObject { kind, prototype }))
  | define id key d => reply (fun _ => .undefined) Reply.failed (id.define key d)
  | put id key value => reply (fun _ => .undefined) Reply.failed (id.put caller key value)
  | get id key => reply (fun v => v) Reply.failed (id.get caller key)
  | invoke id key arguments => reply (fun v => v) Reply.failed (id.invoke caller key arguments)
  | preventExtensions id => reply (fun _ => .undefined) Reply.failed id.preventExtensions
  | instantiate id => reply Value.object Reply.failed (id.instantiate caller)
  | respond capability mode arguments =>
    reply (fun v => v) Reply.failed (caller capability mode arguments)
  | share d => reply Value.descriptor Reply.failed (onHeap (·.addCell d))
  | edit handle d => reply (fun _ => .undefined) Reply.failed (modifyHeap (·.setContent handle d))
  | memorize memo table =>
    reply (fun _ => .undefined) Reply.failed (modifyHeap (·.setMemo memo table))
  | evaluateClass config decl env =>
    reply Value.object Reply.rejected
      (Engine.evaluateClass { caller, store := .ordinary σ, config } decl env)
  | evaluateLiteral config literal env =>
    reply Value.object Reply.rejected
      (Engine.evaluateLiteral { caller, store := .ordinary σ, config } literal env)

theorem stepwise_reply {value : α → Value} {fault : ε → Reply} {x : Action σ ε α}
    (hx : x.Stepwise S) : (reply value fault x).Stepwise S := by
  intro w
  have h := hx w
  unfold reply
  generalize x w = r at h ⊢
  rcases r with ⟨a | e | _, w', events⟩ <;> exact h

theorem stepwise_perform [Heap.Coarse S] {caller : Caller σ} (hc : caller.Stepwise S)
    (operation : Operation) : (operation.perform caller).Stepwise S := by
  cases operation with
  | create kind prototype =>
    exact stepwise_reply (Stepwise.onHeap fun _ => Heap.Step.progress (.created rfl))
  | define id key d => exact stepwise_reply (id.stepwise_define key d)
  | put id key value => exact stepwise_reply (id.follows_put (R := Heap.along S) hc key value)
  | get id key => exact stepwise_reply (id.follows_get (R := Heap.along S) hc key)
  | invoke id key arguments => exact stepwise_reply (id.follows_invoke (R := Heap.along S) hc key arguments)
  | preventExtensions id => exact stepwise_reply (id.follows_preventExtensions (R := Heap.along S))
  | instantiate id => exact stepwise_reply (id.follows_instantiate (R := Heap.along S) hc)
  | respond capability mode arguments =>
    exact stepwise_reply (hc capability mode arguments)
  | share d => exact stepwise_reply (Stepwise.onHeap_beside fun _ => rfl)
  | edit handle d => exact stepwise_reply (Stepwise.onHeap_beside fun _ => rfl)
  | memorize memo table => exact stepwise_reply (Stepwise.onHeap_beside fun _ => rfl)
  | evaluateClass config decl env =>
    exact stepwise_reply (Engine.stepwise_evaluateClass hc rfl decl env)
  | evaluateLiteral config literal env =>
    exact stepwise_reply (Engine.stepwise_evaluateLiteral hc rfl literal env)

end Operation

namespace Program

def run (caller : Caller σ) : Program σ → Action σ Fault Value
  | finish result => .ofExcept result
  | keep state rest => do
    Action.onWorld fun w => ((), { w with host := state })
    rest.run caller
  | look next => fun w => (next w).run caller w
  | perform operation next => do
    let reply ← operation.perform caller
    Action.emit (.remark none [])
    (next reply).run caller

theorem stepwise_run [Heap.Coarse S] {caller : Caller σ} (hc : caller.Stepwise S) (p : Program σ) :
    (p.run caller).Stepwise S := by
  induction p with
  | finish result => exact Stepwise.ofExcept result
  | keep state rest ih =>
    exact Stepwise.bind (fun _ => Heap.Progress.done) fun _ => ih
  | look next ih => exact fun w => ih w w
  | perform operation next ih =>
    exact (operation.stepwise_perform hc).bind fun reply => (Stepwise.emit _).bind fun _ => ih reply

end Program

def Host.ofPrograms (programs : Nat → Value → List Value → Program σ) : Host σ :=
  fun caller code receiver arguments => (programs code receiver arguments).run caller

theorem Host.stepwise_ofPrograms [Heap.Coarse S] (programs : Nat → Value → List Value → Program σ) :
    (Host.ofPrograms programs).Stepwise S :=
  fun _ hc code receiver arguments => (programs code receiver arguments).stepwise_run hc

end Decoration
