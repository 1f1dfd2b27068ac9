import Decoration.Descriptor.Conversion
import Decoration.Environment
import Decoration.Proofs.Step

/-! Reading, writing and calling through the object model go by steps and reports. -/

namespace Decoration

open Decoration.Action

variable {σ : Type} {R : World σ → List Moment → World σ → Prop} [StepTrail R] {caller : Caller σ}

theorem Heap.lt_size_of_own? {h : Heap} {id : ObjectId} {key : String} {d : Descriptor}
    (hd : h.own? id key = some d) : id.index < h.objects.size := by
  by_cases hlt : id.index < h.objects.size
  · exact hlt
  · rw [Heap.own?, Heap.object_of_size_le (Nat.le_of_not_lt hlt)] at hd
    exact absurd hd nofun

theorem Heap.find?_of_own? {h : Heap} {id : ObjectId} {key : String} {d : Descriptor}
    (hd : h.own? id key = some d) : h.find? id key = some d := by
  have hid := Heap.lt_size_of_own? hd
  obtain ⟨n, hn⟩ := Nat.exists_eq_add_of_lt (Nat.lt_of_le_of_lt (Nat.zero_le _) hid)
  rw [Heap.find?, hn, Heap.findWithin, hd]

theorem Value.follows_call (hc : caller.Follows R) (callee receiver : Value)
    (arguments : List Value) : (callee.call caller receiver arguments).Follows R := by
  refine Follows.heap.bind fun h => ?_
  cases h.capability? callee with
  | none => exact Follows.fail _
  | some capability => exact hc capability (.call receiver) arguments

theorem Capability.follows_function {ε : Type} (c : Capability) :
    (c.function : Action σ ε ObjectId).Follows R :=
  Follows.onHeap fun _ => .created rfl

namespace ObjectId

theorem follows_define (id : ObjectId) (key : String) (d : Descriptor) :
    (id.define key d : Action σ Fault Unit).Follows R := by
  intro w
  change Run.Follows R w
    ((ofExcept (w.heap.define id key d) >>= setHeap : Action σ Fault Unit) w)
  cases accepted : w.heap.define id key d with
  | error fault => exact .still
  | ok h => exact .change (.defined accepted)

theorem follows_preventExtensions (id : ObjectId) :
    (id.preventExtensions : Action σ Fault Unit).Follows R :=
  Follows.onHeap fun _ => .sealed

theorem follows_valueOf (hc : caller.Follows R) (id : ObjectId) (d : Descriptor) :
    (id.valueOf caller d).Follows R := by
  match d with
  | .data v .. => exact Follows.pure v
  | .accessor (some getter) .. => exact Value.follows_call hc getter (.object id) []
  | .accessor none .. => exact Follows.pure Value.undefined

theorem follows_get (hc : caller.Follows R) (id : ObjectId) (key : String) :
    (id.get caller key).Follows R := by
  refine Follows.heap.bind fun h => ?_
  cases h.find? id key with
  | none => exact Follows.pure Value.undefined
  | some d => exact id.follows_valueOf hc d

theorem follows_write {id : ObjectId} {key : String} {w : World σ} (value : Value)
    (writable : ∀ v e c, w.heap.own? id key ≠ some (.data v false e c)) :
    (id.write key value w : Run σ Fault Unit).Follows R w := by
  unfold write
  refine Run.Follows.heap_bind ?_
  rcases found : w.heap.own? id key with _ | ⟨v, writes, e, c⟩ | _
  · exact id.follows_define key _ w
  · cases writes with
    | true => exact .change (.written found)
    | false => exact absurd found (writable v e c)
  · exact id.follows_define key _ w

theorem follows_put (hc : caller.Follows R) (id : ObjectId) (key : String)
    (value : Value) : (id.put caller key value).Follows R := by
  intro w
  unfold put
  refine Run.Follows.heap_bind ?_
  -- An own property that cannot be written would have been found, so none stands in the way of `write`.
  have writes (h : ∀ v e c, w.heap.find? id key ≠ some (.data v false e c)) :
      (id.write key value w : Run σ Fault Unit).Follows R w :=
    follows_write value fun v e c own => h v e c (Heap.find?_of_own? own)
  rcases found : w.heap.find? id key with _ | ⟨v, writable, e, c⟩ | ⟨getter, setter, e, c⟩
  · exact writes fun _ _ _ h => nomatch found.symm.trans h
  · cases writable with
    | true => exact writes fun _ _ _ h => nomatch found.symm.trans h
    | false => exact .still
  · cases setter with
    | none => exact .still
    | some setter =>
      have hcall := Value.follows_call hc setter (.object id) [value]
      exact hcall.bind (fun _ => Follows.pure ()) w

theorem follows_invoke (hc : caller.Follows R) (id : ObjectId) (key : String)
    (arguments : List Value) : (id.invoke caller key arguments).Follows R := by
  refine (id.follows_get hc key).bind fun method => Follows.heap.bind fun h => ?_
  cases h.isCallable method with
  | true => exact Value.follows_call hc method (.object id) arguments
  | false => exact Follows.fail _

theorem follows_instantiate (hc : caller.Follows R) (id : ObjectId) :
    (id.instantiate caller).Follows R := by
  refine Follows.heap.bind fun h => ?_
  cases (h.object id).className? with
  | none => exact Follows.fail _
  | some name =>
    refine (id.follows_get hc "prototype").bind fun v => ?_
    cases v with
    | object prototype => exact Follows.onHeap fun _ => .created rfl
    | _ => exact Follows.fail _

theorem follows_field? (hc : caller.Follows R) (id : ObjectId) (key : String) :
    (id.field? caller key).Follows R := by
  refine Follows.heap.bind fun h => ?_
  cases h.has id key with
  | true => exact (id.follows_get hc key).map some
  | false => exact Follows.pure none

theorem follows_flag (hc : caller.Follows R) (id : ObjectId) (key : String) :
    (id.flag caller key).Follows R :=
  (id.follows_field? hc key).bind fun _ => Follows.pure _

end ObjectId

namespace Descriptor

theorem follows_checkHalf (half : Option Value) :
    (checkHalf half : Action σ Fault Unit).Follows R := by
  refine Follows.heap.bind fun h => ?_
  cases half with
  | none => exact Follows.pure ()
  | some v =>
    dsimp only
    split
    · exact Follows.pure ()
    · exact Follows.fail _

theorem follows_ofObject (hc : caller.Follows R) (id : ObjectId) :
    (ofObject caller id).Follows R := by
  refine (id.follows_flag hc "enumerable").bind fun enumerable =>
    (id.follows_flag hc "configurable").bind fun configurable =>
    (id.follows_field? hc "get").bind fun getter =>
    (id.follows_field? hc "set").bind fun setter =>
    (follows_checkHalf getter).bind fun _ => (follows_checkHalf setter).bind fun _ => ?_
  split
  · exact (id.follows_field? hc "value").bind fun value => Follows.checked fun _ =>
      (id.follows_field? hc "writable").bind fun writable => Follows.checked fun _ =>
      Follows.pure _
  · exact (id.follows_field? hc "value").bind fun value =>
      (id.follows_flag hc "writable").bind fun writable => Follows.pure _

theorem follows_ofValue (hc : caller.Follows R) (v : Value) :
    (ofValue caller v).Follows R := by
  refine Follows.heap.bind fun h => ?_
  cases v with
  | descriptor handle => exact Follows.pure (h.content handle)
  | object id => exact follows_ofObject hc id
  | _ => exact Follows.fail _

end Descriptor

theorem Expr.follows_evaluate (hc : caller.Follows R) (env : Environment) (x : Expr) :
    (x.evaluate caller env).Follows R := by
  induction x with
  | literal value => exact Follows.pure value.value
  | identifier name =>
    rw [Expr.evaluate]
    cases env.lookup? name with
    | none => exact Follows.fail _
    | some value => exact Follows.pure value
  | member object property ih =>
    refine ih.bind fun v => ?_
    cases v with
    | object id => exact id.follows_get hc property
    | _ => exact Follows.heap.bind fun h => Follows.fail _

/-! Heaps along a relation. -/

section

variable {S : Heap → Heap → Prop} [Heap.Coarse S]

theorem Capability.stepwise_function {ε : Type} (c : Capability) :
    (c.function : Action σ ε ObjectId).Stepwise S := c.follows_function (R := Heap.along S)

theorem Expr.stepwise_evaluate (hc : caller.Stepwise S) (env : Environment) (x : Expr) :
    (x.evaluate caller env).Stepwise S := x.follows_evaluate (R := Heap.along S) hc env

theorem Descriptor.stepwise_ofValue (hc : caller.Stepwise S) (v : Value) :
    (ofValue caller v).Stepwise S := follows_ofValue (R := Heap.along S) hc v

theorem ObjectId.stepwise_define (id : ObjectId) (key : String) (d : Descriptor) :
    (id.define key d : Action σ Fault Unit).Stepwise S := id.follows_define (R := Heap.along S) key d

end

end Decoration
