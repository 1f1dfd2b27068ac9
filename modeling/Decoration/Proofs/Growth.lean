import Decoration.Proofs.Overlay
import Decoration.Proofs.Success
import Decoration.Unit

/-! Heaps in which all that was there is still there. -/

namespace Decoration

variable {σ ε ε' α β : Type}

namespace Heap

structure Grows (h h' : Heap) : Prop where
  size : h.objects.size ≤ h'.objects.size
  same : ∀ id, id.index < h.objects.size → h'.object id = h.object id

def KeepsFunctions (h h' : Heap) : Prop := ∀ v c, h.capability? v = some c → h'.capability? v = some c

theorem Grows.refl (h : Heap) : h.Grows h := ⟨Nat.le_refl _, fun _ _ => rfl⟩

theorem Grows.trans {h h' h'' : Heap} (first : h.Grows h') (second : h'.Grows h'') :
    h.Grows h'' :=
  ⟨Nat.le_trans first.size second.size, fun id hid =>
    (second.same id (Nat.lt_of_lt_of_le hid first.size)).trans (first.same id hid)⟩

theorem KeepsFunctions.refl (h : Heap) : h.KeepsFunctions h := fun _ _ hc => hc

theorem KeepsFunctions.trans {h h' h'' : Heap} (first : h.KeepsFunctions h')
    (second : h'.KeepsFunctions h'') : h.KeepsFunctions h'' :=
  fun v c hc => second v c (first v c hc)

theorem lt_size_of_capability? {h : Heap} {id : ObjectId} {c : Capability}
    (hc : h.capability? (.object id) = some c) : id.index < h.objects.size := by
  by_cases hid : id.index < h.objects.size
  · exact hid
  · rw [capability?, object_of_size_le (Nat.le_of_not_lt hid)] at hc
    cases hc

theorem Grows.keepsFunctions {h h' : Heap} (g : h.Grows h') : h.KeepsFunctions h' := by
  intro v c hc
  cases v with
  | object id =>
    rw [capability?, g.same id (lt_size_of_capability? hc)]
    exact hc
  | _ => cases hc

theorem grows_addObject (h : Heap) (o : Object) : h.Grows (h.addObject o).2 := by
  refine ⟨by simp [addObject], fun id hid => ?_⟩
  rw [object_addObject, if_neg (ne_addObject hid o)]

theorem capability?_addObject (h : Heap) (c : Capability) :
    (h.addObject { kind := .function c }).2.capability?
      (.object (h.addObject { kind := .function c }).1) = some c := by
  rw [capability?, object_addObject, if_pos rfl]
  rfl

theorem keepsFunctions_withProperties {h : Heap} {id : ObjectId} (hid : id.index < h.objects.size)
    (p : Properties) : h.KeepsFunctions (h.withProperties id p) :=
  fun v _ hc => (capability?_withProperties hid p v).trans hc

end Heap

def Action.Spares (x : Action σ ε α) : Prop := ∀ w : World σ, w.heap.Grows (x w).world.heap

namespace Action

theorem Yields.unique {x : Action σ ε α} {a b : α} {w w' w'' : World σ} (h : x.Yields w a w')
    (h' : x.Yields w b w'') : a = b ∧ w' = w'' :=
  ⟨Outcome.ok.inj (h.1.symm.trans h'.1), h.2.symm.trans h'.2⟩

namespace Spares

theorem yields {x : Action σ ε α} (hx : x.Spares) {a : α} {w w' : World σ}
    (h : x.Yields w a w') : w.heap.Grows w'.heap := by
  rw [← h.2]
  exact hx w

protected theorem pure (a : α) : (pure a : Action σ ε α).Spares := fun w => Heap.Grows.refl w.heap

protected theorem bind {x : Action σ ε α} {f : α → Action σ ε β} (hx : x.Spares)
    (hf : ∀ a, (f a).Spares) : (x >>= f).Spares := by
  intro w
  have h := hx w
  change w.heap.Grows (Action.bind x f w).world.heap
  unfold Action.bind
  generalize x w = r at h ⊢
  rcases r with ⟨a | e | _, w', events⟩
  case ok => exact h.trans (hf a w')
  case failed => exact h
  case exhausted => exact h

protected theorem map (f : α → β) {x : Action σ ε α} (hx : x.Spares) : (f <$> x).Spares := by
  rw [map_eq_pure_bind]
  exact hx.bind fun a => Spares.pure (f a)

protected theorem mapFault (f : Heap → ε → ε') {x : Action σ ε α} (hx : x.Spares) :
    (x.mapFault f).Spares := by
  intro w
  have h := hx w
  unfold mapFault
  generalize x w = r at h ⊢
  rcases r with ⟨a | e | _, w', events⟩ <;> exact h

theorem mapM_option {f : α → Action σ ε β} (hf : ∀ a, (f a).Spares) (o : Option α) :
    (o.mapM f).Spares := by
  cases o with
  | none => exact Spares.pure none
  | some a => exact (hf a).map some

end Spares
end Action

open Decoration.Action

namespace Capability

theorem spares_function (c : Capability) : (c.function : Action σ ε ObjectId).Spares :=
  fun w => Heap.grows_addObject w.heap _

theorem exists_yields_function (c : Capability) (w : World σ) :
    ∃ f w', (c.function : Action σ ε ObjectId).Yields w f w' :=
  ⟨_, _, yields_onHeap.mpr ⟨rfl, rfl⟩⟩

theorem capability?_of_yields {c : Capability} {f : ObjectId} {w w' : World σ}
    (h : (c.function : Action σ ε ObjectId).Yields w f w') :
    w'.heap.capability? (.object f) = some c := by
  obtain ⟨rfl, rfl⟩ := yields_onHeap.mp h
  exact Heap.capability?_addObject _ c

end Capability
end Decoration
