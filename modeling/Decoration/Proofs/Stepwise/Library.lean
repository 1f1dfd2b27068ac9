import Decoration.Capability.Response
import Decoration.Proofs.Stepwise.Access

/-! The decorators of the library, the functions that they make, and nested calls go by steps and
reports if the host does. -/

namespace Decoration

open Decoration.Action

variable {σ : Type} {R : World σ → List Moment → World σ → Prop} [StepTrail R] {caller : Caller σ}

theorem MemoId.follows_wrap {ε : Type} (id : MemoId) (key : String) (wrapped : Value) :
    (id.wrap key wrapped : Action σ ε Value).Follows R :=
  Follows.heap.bind fun _ => (Follows.onHeap_beside fun _ => rfl).bind fun _ =>
    (Capability.follows_function _).bind fun _ => Follows.pure _

theorem MemoId.follows_call (hc : caller.Follows R) (id : MemoId) (site : Nat)
    (wrapped receiver : Value) (arguments : List Value) :
    (id.call caller site wrapped receiver arguments).Follows R := by
  refine Follows.heap.bind fun h => ?_
  dsimp only
  split
  · exact Follows.pure _
  · exact (Value.follows_call hc wrapped receiver arguments).bind fun result =>
      (Follows.onHeap_beside fun _ => rfl).bind fun _ => Follows.pure result

namespace Edit

theorem follows_wrapMemoized (memo : MemoId) (key : String) (d : Descriptor) :
    (wrapMemoized memo key d : Action σ Fault Descriptor).Follows R := by
  refine Follows.heap.bind fun h => ?_
  match d with
  | .data value w e c =>
    dsimp only
    split
    · exact (memo.follows_wrap key value).bind fun _ => Follows.pure _
    · exact Follows.fail _
  | .accessor (some getter) setter e c =>
    exact (memo.follows_wrap key getter).bind fun _ => Follows.pure _
  | .accessor none .. => exact Follows.fail _

theorem follows_wrapDeprecated (message key : String) (d : Descriptor) :
    (wrapDeprecated message key d : Action σ Fault Descriptor).Follows R := by
  refine Follows.heap.bind fun h => ?_
  cases d with
  | data value w e c =>
    dsimp only
    split
    · exact (Capability.follows_function _).bind fun _ => Follows.pure _
    · exact Follows.fail _
  | accessor => exact Follows.fail _

theorem follows_apply (edit : Edit) (key : String) (extra : List Value) (d : Descriptor) :
    (edit.apply key extra d : Action σ Fault Descriptor).Follows R := by
  cases edit with
  | memoize memo => exact follows_wrapMemoized memo key d
  | deprecated => exact follows_wrapDeprecated _ key d
  | _ => exact Follows.pure _

theorem follows_applyFresh (edit : Edit) (key : String) (extra : List Value) (d : Descriptor) :
    (edit.applyFresh key extra d : Action σ Fault Value).Follows R :=
  (edit.follows_apply key extra d).bind fun _ =>
    (Follows.onHeap_beside fun _ => rfl).bind fun _ => Follows.pure _

theorem follows_construct (hc : caller.Follows R) (edit : Edit) (arguments : List Value) :
    (edit.construct caller arguments).Follows R := by
  unfold construct
  dsimp only
  split
  · exact Follows.heap.bind fun _ => (edit.follows_apply _ _ _).bind fun edited =>
      (Follows.onHeap_beside fun _ => rfl).bind fun _ => Follows.pure _
  · split
    · exact edit.follows_applyFresh _ _ _
    · exact Follows.pure _
  · exact (Descriptor.follows_ofValue hc _).bind fun d => edit.follows_applyFresh _ _ d

end Edit

theorem Mark.follows_construct (hc : caller.Follows R) (mark : Mark) (arguments : List Value) :
    (mark.construct caller arguments).Follows R := by
  unfold construct
  split
  · exact (ObjectId.follows_put hc _ _ _).bind fun _ => Follows.pure _
  · exact Follows.fail _

def Host.Follows (R : World σ → List Moment → World σ → Prop) (host : Host σ) : Prop :=
  ∀ caller : Caller σ, caller.Follows R →
    ∀ code receiver arguments, (host caller code receiver arguments).Follows R

theorem Capability.follows_respond {host : Host σ} (hh : host.Follows R)
    (hc : caller.Follows R) : Caller.Follows R fun capability => capability.respond host caller := by
  intro capability request arguments
  cases capability with
  | native name code => exact hh caller hc code request.receiver arguments
  | constant name result => exact Follows.pure result
  | edit e => exact e.follows_construct hc arguments
  | mark m => exact m.follows_construct hc arguments
  | memoized key memo site wrapped =>
    exact memo.follows_call hc site wrapped request.receiver arguments
  | deprecated key message wrapped =>
    exact (Follows.report _).bind fun _ =>
      Value.follows_call hc wrapped request.receiver arguments

theorem Caller.follows_nested {host : Host σ} (hh : host.Follows R) (depth : Nat) :
    (Caller.nested host depth).Follows R := by
  induction depth with
  | zero => exact fun _ _ _ => Follows.exhausted
  | succ depth ih => exact Capability.follows_respond hh ih

def Host.Stepwise (S : Heap → Heap → Prop) (host : Host σ) : Prop :=
  ∀ caller : Caller σ, caller.Stepwise S →
    ∀ code receiver arguments, (host caller code receiver arguments).Stepwise S

theorem Caller.stepwise_nested {S : Heap → Heap → Prop} [Heap.Coarse S] {host : Host σ}
    (hh : host.Stepwise S) (depth : Nat) : (Caller.nested host depth).Stepwise S :=
  Caller.follows_nested (R := Heap.along S) hh depth

end Decoration
