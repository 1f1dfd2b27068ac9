import Decoration.Proofs.Evolution
import Decoration.Proofs.Success
import Mathlib.Data.List.Nodup

/-! The order of the own keys of an object. One change adds one key at most, behind those that are
there, so the keys stand in the order in which they were first defined. -/

namespace Decoration

namespace Heap

variable {h h' h'' : Heap} {o : ObjectId} {a b : String} {heaps moments : List Heap}

/-- The heaps from one to another, one change after the other, with both ends. -/
inductive Course : Heap → List Heap → Heap → Prop
  | done (h : Heap) : Course h [h] h
  | step {h h' h'' : Heap} {heaps : List Heap} (first : Step h h') (rest : Course h' heaps h'') :
    Course h (h :: heaps) h''

def OwnedBefore (heaps : List Heap) (o : ObjectId) (a b : String) : Prop :=
  ∃ h ∈ heaps, a ∈ h.ownKeys o ∧ b ∉ h.ownKeys o

theorem Progress.exists_course (p : Progress Step h moments h') :
    ∃ heaps, Course h heaps h' ∧ moments.Sublist heaps := by
  induction p with
  | done => exact ⟨_, .done _, List.nil_sublist _⟩
  | seen _ ih =>
    obtain ⟨heaps, hcourse, hsublist⟩ := ih
    exact ⟨_, .step (.beside rfl) hcourse, hsublist.cons_cons _⟩
  | step first _ ih =>
    obtain ⟨heaps, hcourse, hsublist⟩ := ih
    exact ⟨_, .step first hcourse, hsublist.cons _⟩

theorem ownKeys_of_size_le (ho : h.objects.size ≤ o.index) : h.ownKeys o = [] := by
  rw [ownKeys, object_of_size_le ho]
  rfl

theorem ownKeys_setObject (id : ObjectId) {p : Object} (hp : p.properties.keys = h.ownKeys id)
    (o : ObjectId) : (h.setObject id p).ownKeys o = h.ownKeys o := by
  rcases h.object_setObject_or id p o with hsame | ⟨rfl, hwritten⟩
  · rw [ownKeys, hsame, ownKeys]
  · rw [ownKeys, hwritten, hp]

theorem keys_insert (h : Heap) (id : ObjectId) (key : String) (d : Descriptor) :
    ((h.object id).insert key d).properties.keys =
      h.ownKeys id ++ if key ∈ h.ownKeys id then [] else [key] := Properties.keys_insert _ key d

theorem Step.ownKeys (s : Step h h') (o : ObjectId) :
    h'.ownKeys o = h.ownKeys o ∨ ∃ key ∉ h.ownKeys o, h'.ownKeys o = h.ownKeys o ++ [key] := by
  cases s with
  | @defined _ id key d accepted =>
    obtain ⟨haccepts, rfl⟩ := define_eq_ok.mp accepted
    have hkeys := h.keys_insert id key d
    by_cases hkey : key ∈ h.ownKeys id
    · rw [if_pos hkey, List.append_nil] at hkeys
      exact .inl (ownKeys_setObject id hkeys o)
    · rw [if_neg hkey] at hkeys
      rw [Heap.ownKeys, object_setObject (lt_size_of_accepts haccepts)]
      by_cases heq : o = id
      · rw [if_pos heq, heq]
        exact .inr ⟨key, hkey, hkeys⟩
      · rw [if_neg heq]
        exact .inl rfl
  | @written id key v v' e c found =>
    have hkeys := h.keys_insert id key (.data v' true e c)
    rw [if_pos (mem_ownKeys_of_own? found), List.append_nil] at hkeys
    exact .inl (ownKeys_setObject id hkeys o)
  | @sealed id =>
    have hkeys : { h.object id with extensible := false }.properties.keys = h.ownKeys id := rfl
    exact .inl (ownKeys_setObject id hkeys o)
  | @created p empty =>
    left
    rw [Heap.ownKeys, object_addObject]
    by_cases heq : o = (h.addObject p).1
    · have hnew : h.object o = .absent := by
        rw [heq]
        exact object_of_size_le (Nat.le_refl _)
      rw [if_pos heq, empty, Heap.ownKeys, hnew]
      rfl
    · rw [if_neg heq, Heap.ownKeys]
  | beside same =>
    left
    rw [Heap.ownKeys, object, same, Heap.ownKeys, object]

namespace Course

theorem ownKeys (c : Course h heaps h') (o : ObjectId) : h.ownKeys o <+: h'.ownKeys o := by
  induction c with
  | done => exact List.prefix_rfl
  | step first _ ih =>
    refine List.IsPrefix.trans ?_ ih
    rcases first.ownKeys o with hsame | ⟨key, -, hnext⟩
    · exact hsame ▸ List.prefix_rfl
    · exact hnext ▸ List.prefix_append _ _

theorem nodup_ownKeys (c : Course h heaps h') (hnodup : (h.ownKeys o).Nodup) :
    (h'.ownKeys o).Nodup := by
  induction c with
  | done => exact hnodup
  | step first _ ih =>
    refine ih ?_
    rcases first.ownKeys o with hsame | ⟨key, hkey, hnext⟩
    · rwa [hsame]
    · rw [hnext]
      exact hnodup.append (List.nodup_singleton key) (by simpa using hkey)

theorem mem_of_sublist {keys later : List String} (hnodup : (keys ++ ([b] ++ later)).Nodup)
    (hab : [a, b].Sublist (keys ++ ([b] ++ later))) : a ∈ keys := by
  have hb : b ∉ later := (List.nodup_cons.mp (List.nodup_append.mp hnodup).2.1).1
  obtain ⟨before, after, hsplit, hbefore, hafter⟩ := List.sublist_append_iff.mp hab
  cases before with
  | nil =>
    obtain rfl : [a, b] = after := hsplit
    cases hafter with
    | cons _ hlater => exact absurd (hlater.subset (by simp)) hb
    | cons_cons _ hlater => exact absurd (hlater.subset (by simp)) hb
  | cons key rest =>
    obtain ⟨rfl, -⟩ := List.cons.inj hsplit
    exact hbefore.subset List.mem_cons_self

theorem ownedBefore (c : Course h heaps h') (hnodup : (h'.ownKeys o).Nodup) (hb : b ∉ h.ownKeys o)
    (hab : [a, b].Sublist (h'.ownKeys o)) : OwnedBefore heaps o a b := by
  induction c with
  | done => exact absurd (hab.subset (by simp)) hb
  | @step h h' h'' heaps first rest ih =>
    by_cases hb' : b ∈ h'.ownKeys o
    · obtain ⟨later, hlast⟩ := rest.ownKeys o
      rcases first.ownKeys o with hsame | ⟨key, hkey, hnext⟩
      · exact absurd (hsame ▸ hb') hb
      · obtain rfl : b = key := by
          rw [hnext, List.mem_append] at hb'
          exact List.mem_singleton.mp (hb'.resolve_left hb)
        refine ⟨h, List.mem_cons_self, ?_, hb⟩
        rw [← hlast, hnext, List.append_assoc] at hab hnodup
        exact mem_of_sublist hnodup hab
    · obtain ⟨m, hm, howned⟩ := ih hnodup hb' hab
      exact ⟨m, List.mem_cons_of_mem _ hm, howned⟩

theorem pairwise_ownKeys (c : Course h heaps h') (hempty : h.ownKeys o = []) :
    (h'.ownKeys o).Pairwise (OwnedBefore heaps o) := by
  have hnodup : (h'.ownKeys o).Nodup := c.nodup_ownKeys (hempty ▸ List.nodup_nil)
  refine List.pairwise_iff_forall_sublist.mpr fun {a b} hab => ?_
  exact c.ownedBefore hnodup (by simp [hempty]) hab

end Course
end Heap

open Decoration.Action

variable {σ ε α : Type} {x : Action σ ε α}

theorem Action.Stepwise.exists_course (hx : x.Stepwise Heap.Step) (w : World σ) :
    ∃ heaps, Heap.Course w.heap heaps (x w).world.heap ∧
      ((x w).events.map (·.heap)).Sublist heaps := (hx w).exists_course

theorem Action.Stepwise.mem_ownKeys (hx : x.Stepwise Heap.Step) {a : α} {w w' : World σ}
    (h : x.Yields w a w') {o : ObjectId} {key : String} (hkey : key ∈ w.heap.ownKeys o) :
    key ∈ w'.heap.ownKeys o := by
  obtain ⟨heaps, hcourse, -⟩ := hx.exists_course w
  rw [h.2] at hcourse
  exact (hcourse.ownKeys o).subset hkey

end Decoration
