import Decoration.Proofs.Program
import Decoration.Proofs.Redefinition

/-! What the history of an object can be. Keys stay where they are, an object that is closed to
extensions stays closed, and a property that is not configurable is settled: nothing of it changes but
the value while it is writable, and `writable` can only be cleared. -/

namespace Decoration

namespace Object

structure Evolves (o o' : Object) : Prop where
  kind : o'.kind = o.kind
  prototype : o'.prototype = o.prototype
  keys : o.properties.keys <+: o'.properties.keys
  nodup : o.properties.keys.Nodup → o'.properties.keys.Nodup
  closed : o.extensible = false →
    o'.extensible = false ∧ o'.properties.keys = o.properties.keys
  settled : ∀ key d, o.properties.find? key = some d → d.configurable = false →
    ∃ d', o'.properties.find? key = some d' ∧ d.Settles d'

theorem Evolves.refl (o : Object) : o.Evolves o where
  kind := rfl
  prototype := rfl
  keys := List.prefix_rfl
  nodup h := h
  closed h := ⟨h, rfl⟩
  settled _ d hd hc := ⟨d, hd, .refl hc⟩

theorem Evolves.trans {o o' o'' : Object} (h : o.Evolves o') (h' : o'.Evolves o'') :
    o.Evolves o'' where
  kind := h'.kind.trans h.kind
  prototype := h'.prototype.trans h.prototype
  keys := h.keys.trans h'.keys
  nodup hn := h'.nodup (h.nodup hn)
  closed hc := by
    obtain ⟨hc', hkeys⟩ := h.closed hc
    obtain ⟨hc'', hkeys'⟩ := h'.closed hc'
    exact ⟨hc'', hkeys'.trans hkeys⟩
  settled key d hd hc := by
    obtain ⟨d', hd', hs⟩ := h.settled key d hd hc
    obtain ⟨d'', hd'', hs'⟩ := h'.settled key d' hd' hs.1
    exact ⟨d'', hd'', hs.trans hs'⟩

theorem Accepts.evolves {o : Object} {key : String} {d : Descriptor} (h : o.Accepts key d) :
    o.Evolves (o.insert key d) where
  kind := rfl
  prototype := rfl
  keys := ⟨_, (Properties.keys_insert o.properties key d).symm⟩
  nodup hn := by
    change (o.properties.insert key d).keys.Nodup
    rw [Properties.keys_insert]
    split
    · rwa [List.append_nil]
    · rename_i hkey
      exact List.nodup_append.mpr ⟨hn, List.pairwise_singleton _ key, fun a ha b hb heq =>
        hkey (List.mem_singleton.mp hb ▸ heq ▸ ha)⟩
  closed hc := by
    refine ⟨hc, ?_⟩
    change (o.properties.insert key d).keys = _
    rw [Properties.keys_insert]
    split
    · exact List.append_nil _
    · rename_i hkey
      exact absurd ((h.absent (Properties.find?_eq_none.mpr hkey)).symm.trans hc) nofun
  settled other current hcurrent hc := by
    change ∃ d', (o.properties.insert key d).find? other = some d' ∧ _
    rw [Properties.find?_insert]
    by_cases hother : other = key
    · rw [hother] at hcurrent
      exact ⟨d, if_pos hother, h.present current hcurrent hc⟩
    · exact ⟨current, by rw [if_neg hother, hcurrent], .refl hc⟩

theorem accepts_write {o : Object} {key : String} {v : Value} {e c : Bool}
    (found : o.properties.find? key = some (.data v true e c)) (v' : Value) :
    o.Accepts key (.data v' true e c) := by
  refine ⟨fun habsent => absurd (found.symm.trans habsent) nofun, fun current hcurrent hc => ?_⟩
  cases found.symm.trans hcurrent
  exact ⟨hc, rfl, .inl rfl⟩

theorem evolves_preventExtensions (o : Object) : o.Evolves { o with extensible := false } where
  kind := rfl
  prototype := rfl
  keys := List.prefix_rfl
  nodup h := h
  closed _ := ⟨rfl, rfl⟩
  settled _ d hd hc := ⟨d, hd, .refl hc⟩

end Object

namespace Heap

/-- How a heap may look later: objects are only added, and those there are evolve. -/
structure Evolves (h h' : Heap) : Prop where
  size : h.objects.size ≤ h'.objects.size
  objects : ∀ id : ObjectId, id.index < h.objects.size → (h.object id).Evolves (h'.object id)

theorem Evolves.refl (h : Heap) : h.Evolves h := ⟨Nat.le_refl _, fun _ _ => .refl _⟩

theorem Evolves.trans {h h' h'' : Heap} (a : h.Evolves h') (b : h'.Evolves h'') : h.Evolves h'' :=
  ⟨Nat.le_trans a.size b.size, fun id hid =>
    (a.objects id hid).trans (b.objects id (Nat.lt_of_lt_of_le hid a.size))⟩

theorem evolves_setObject {h : Heap} {id : ObjectId} {o : Object} (ho : (h.object id).Evolves o) :
    h.Evolves (h.setObject id o) := by
  refine ⟨Nat.le_of_eq (size_setObject h id o).symm, fun other hother => ?_⟩
  rcases h.object_setObject_or id o other with hsame | ⟨rfl, hwritten⟩
  · rw [hsame]
    exact .refl _
  · rwa [hwritten]

theorem Step.evolves {h h' : Heap} (s : Step h h') : h.Evolves h' := by
  cases s with
  | defined accepted =>
    obtain ⟨haccepts, rfl⟩ := define_eq_ok.mp accepted
    exact evolves_setObject haccepts.evolves
  | written found => exact evolves_setObject (Object.accepts_write found _).evolves
  | sealed => exact evolves_setObject (Object.evolves_preventExtensions _)
  | @created o empty =>
    refine ⟨by simp [addObject], fun id hid => ?_⟩
    rw [object_addObject, if_neg (ne_addObject hid o)]
    exact .refl _
  | beside same =>
    refine ⟨Nat.le_of_eq (congrArg Array.size same.symm), fun id _ => ?_⟩
    rw [object, object, same]
    exact .refl _

end Heap

/-- Between any two moments of a program's run, however long it is and whatever programs it calls as
decorators, getters and setters, every object has evolved. -/
theorem Program.pairwise_evolves {σ : Type} (programs : Nat → Value → List Value → Program σ)
    (depth : Nat) (p : Program σ) (w : World σ) :
    ((p.run (Caller.nested (Host.ofPrograms programs) depth)).history w).Pairwise Heap.Evolves :=
  have hc : Caller.Stepwise Heap.Step _ :=
    Caller.stepwise_nested (Host.stepwise_ofPrograms programs) depth
  (p.stepwise_run hc).pairwise_history Heap.Evolves.refl (fun _ _ _ => Heap.Evolves.trans)
    (fun _ _ => Heap.Step.evolves) w

end Decoration
