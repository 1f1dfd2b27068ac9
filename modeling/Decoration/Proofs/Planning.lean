import Decoration.Unit

/-! The units of a class body without the places of the latest ones: an element looks for the latest
unit of its slot among all that came before it. Keeping the places finds the same unit. -/

namespace Decoration

namespace ElementUnit

variable {u : ElementUnit} {e : ClassElement} {before after units : List ElementUnit}

def sameSlot (u : ElementUnit) (e : ClassElement) : Bool :=
  u.name == e.name && u.isStatic == e.isStatic

theorem sameSlot_iff : u.sameSlot e = true ↔ u.name = e.name ∧ u.isStatic = e.isStatic := by
  simp [sameSlot]

def add (units : List ElementUnit) (e : ClassElement) : Except DecorationFault (List ElementUnit) :=
  match completeLatest units with
  | none => .ok (e.unit :: units)
  | some result => result
where
  completeLatest : List ElementUnit → Option (Except DecorationFault (List ElementUnit))
    | [] => none
    | u :: rest =>
      if u.sameSlot e then (u.completed? e).map fun shape => (u.complete e shape).map (· :: rest)
      else (completeLatest rest).map fun r => r.map (u :: ·)

theorem completeLatest_append (hbefore : ∀ x ∈ before, x.sameSlot e = false)
    (hslot : u.sameSlot e = true) :
    add.completeLatest e (before ++ u :: after) =
      (u.completed? e).map fun shape => (u.complete e shape).map (before ++ · :: after) := by
  induction before with
  | nil => rw [List.nil_append, add.completeLatest, if_pos hslot]; rfl
  | cons x before ih =>
    rw [List.forall_mem_cons] at hbefore
    rw [List.cons_append, add.completeLatest, if_neg (by simp [hbefore.1]), ih hbefore.2,
      Option.map_map]
    congr 1
    funext shape
    rw [Function.comp_apply]
    cases u.complete e shape <;> rfl

theorem completeLatest_of_find?
    (h : ∀ u, units.find? (·.sameSlot e) = some u → u.completed? e = none) :
    add.completeLatest e units = none := by
  induction units with
  | nil => rfl
  | cons u rest ih =>
    rw [List.find?_cons] at h
    rw [add.completeLatest]
    cases hslot : u.sameSlot e with
    | true =>
      rw [hslot] at h
      rw [if_pos rfl, h u rfl, Option.map_none]
    | false =>
      rw [hslot] at h
      rw [if_neg Bool.false_ne_true, ih h, Option.map_none]

theorem slot_of_complete {shape : UnitShape} {done : ElementUnit}
    (h : u.complete e shape = .ok done) : done.name = u.name ∧ done.isStatic = u.isStatic := by
  unfold complete at h
  split at h
  · cases h
    exact ⟨rfl, rfl⟩
  · split at h
    · cases h
      exact ⟨rfl, rfl⟩
    · cases h

end ElementUnit

namespace UnitPlan

variable {p p' : UnitPlan} {e : ClassElement} {elements : List ClassElement}

def slots (p : UnitPlan) : List (String × Bool) := p.units.toList.map fun u => (u.name, u.isStatic)

/-- The place that is kept for a slot is that of its last unit, and none is kept if it has no unit. -/
structure Indexed (p : UnitPlan) : Prop where
  placed : ∀ {slot place}, p.places.lookup slot = some place →
    ∃ before after, p.slots = before ++ slot :: after ∧ before.length = place ∧ slot ∉ after
  unplaced : ∀ {slot}, p.places.lookup slot = none → slot ∉ p.slots

theorem indexed_empty : Indexed {} :=
  ⟨fun h => (nomatch h), fun _ => List.not_mem_nil⟩

theorem slots_start (p : UnitPlan) (e : ClassElement) :
    (p.start e).slots = p.slots ++ [(e.name, e.isStatic)] := by
  rw [slots, start, Array.toList_push, List.map_append]
  rfl

theorem Indexed.start (h : Indexed p) (e : ClassElement) : Indexed (p.start e) := by
  have hlookup : ∀ slot, (p.start e).places.lookup slot =
      if slot = (e.name, e.isStatic) then some p.units.size else p.places.lookup slot := by
    intro slot
    rw [UnitPlan.start, List.lookup_cons]
    by_cases hslot : slot = (e.name, e.isStatic)
    · rw [if_pos hslot, beq_iff_eq.mpr hslot]
    · rw [if_neg hslot, beq_false_of_ne hslot]
  constructor
  · intro slot place hplace
    rw [hlookup] at hplace
    rw [slots_start]
    split at hplace
    · rename_i hslot
      refine ⟨p.slots, [], by rw [hslot], ?_, List.not_mem_nil⟩
      rw [slots, List.length_map, Array.length_toList]
      exact Option.some.inj hplace
    · rename_i hslot
      obtain ⟨before, after, hslots, hlength, hafter⟩ := h.placed hplace
      refine ⟨before, after ++ [(e.name, e.isStatic)], ?_, hlength, ?_⟩
      · rw [hslots, List.append_assoc, List.cons_append]
      · rw [List.mem_append, List.mem_singleton, not_or]
        exact ⟨hafter, hslot⟩
  · intro slot hnone
    rw [hlookup] at hnone
    rw [slots_start, List.mem_append, List.mem_singleton, not_or]
    split at hnone
    · cases hnone
    · rename_i hslot
      exact ⟨h.unplaced hnone, hslot⟩

theorem Indexed.latest?_cases (h : Indexed p) (e : ClassElement) :
    (p.latest? e = none ∧ ∀ u ∈ p.units.toList, u.sameSlot e = false) ∨
    ∃ before u after, p.latest? e = some (before.length, u) ∧
      p.units.toList = before ++ u :: after ∧ u.sameSlot e = true ∧
      ∀ x ∈ after, x.sameSlot e = false := by
  have hother : ∀ {x : ElementUnit} {list : List ElementUnit}, x ∈ list →
      (e.name, e.isStatic) ∉ list.map (fun u => (u.name, u.isStatic)) → x.sameSlot e = false := by
    intro x list hx hlist
    rw [Bool.eq_false_iff, Ne, ElementUnit.sameSlot_iff]
    rintro ⟨hname, hstatic⟩
    exact hlist (List.mem_map.mpr ⟨x, hx, by rw [hname, hstatic]⟩)
  cases hplace : p.places.lookup (e.name, e.isStatic) with
  | none =>
    refine .inl ⟨by rw [latest?, hplace]; rfl, fun u hu => hother hu (h.unplaced hplace)⟩
  | some place =>
    obtain ⟨before, after, hslots, rfl, hafter⟩ := h.placed hplace
    obtain ⟨first, rest, hunits, rfl, hrest⟩ := List.map_eq_append_iff.mp hslots
    obtain ⟨u, last, rfl, hu, rfl⟩ := List.map_eq_cons_iff.mp hrest
    obtain ⟨hname, hstatic⟩ := Prod.mk.inj hu
    refine .inr ⟨first, u, last, ?_, hunits, ElementUnit.sameSlot_iff.mpr ⟨hname, hstatic⟩,
      fun x hx => hother hx hafter⟩
    have hget : p.units[first.length]? = some u := by
      rw [← Array.getElem?_toList, hunits]
      simp
    rw [latest?, hplace, List.length_map]
    simp [hget]

theorem toList_setIfInBounds {units : Array ElementUnit} {before after : List ElementUnit}
    {u : ElementUnit} (hunits : units.toList = before ++ u :: after) (done : ElementUnit) :
    (units.setIfInBounds before.length done).toList = before ++ done :: after := by
  rw [Array.toList_setIfInBounds, hunits]
  simp

theorem Indexed.add (h : Indexed p) (hadd : p.add e = .ok p') : Indexed p' := by
  unfold UnitPlan.add at hadd
  rcases h.latest?_cases e with ⟨hnone, -⟩ | ⟨before, u, after, hlatest, hunits, -, -⟩
  · rw [hnone] at hadd
    cases hadd
    exact h.start e
  · rw [hlatest] at hadd
    dsimp only at hadd
    split at hadd
    · cases hadd
      exact h.start e
    · rename_i shape _
      cases hdone : u.complete e shape with
      | error fault =>
        rw [hdone] at hadd
        cases hadd
      | ok done =>
        rw [hdone] at hadd
        cases hadd
        -- A completed unit is still the unit of its slot, so no place changes.
        have hslots : slots { p with units := p.units.setIfInBounds before.length done } = p.slots := by
          obtain ⟨hname, hstatic⟩ := ElementUnit.slot_of_complete hdone
          rw [slots, toList_setIfInBounds hunits, slots, hunits]
          simp [hname, hstatic]
        refine ⟨fun hplace => ?_, fun hnone => ?_⟩
        · rw [hslots]
          exact h.placed hplace
        · rw [hslots]
          exact h.unplaced hnone

theorem Indexed.add_eq (h : Indexed p) (e : ClassElement) :
    ElementUnit.add p.units.toList.reverse e = (p.add e).map (·.units.toList.reverse) := by
  have hstart : (p.start e).units.toList.reverse = e.unit :: p.units.toList.reverse := by
    rw [UnitPlan.start, Array.toList_push, List.reverse_concat]
  unfold UnitPlan.add ElementUnit.add
  rcases h.latest?_cases e with ⟨hnone, hunits⟩ | ⟨before, u, after, hlatest, hunits, hslot, hafter⟩
  · have hfind : p.units.toList.reverse.find? (·.sameSlot e) = none := by
      simpa using fun u hu => hunits u (by simpa using hu)
    rw [ElementUnit.completeLatest_of_find? fun u hu => (nomatch hfind.symm.trans hu), hnone]
    exact congrArg Except.ok hstart.symm
  · have hreverse : p.units.toList.reverse = after.reverse ++ u :: before.reverse := by
      rw [hunits]
      simp
    rw [hlatest, hreverse, ElementUnit.completeLatest_append (by simpa using hafter) hslot]
    dsimp only
    cases hshape : u.completed? e with
    | none => exact congrArg Except.ok (hreverse ▸ hstart.symm)
    | some shape =>
      dsimp only [Option.map_some]
      cases u.complete e shape with
      | error fault => rfl
      | ok done =>
        refine congrArg Except.ok ?_
        change _ = (p.units.setIfInBounds before.length done).toList.reverse
        rw [toList_setIfInBounds hunits]
        simp

theorem Indexed.foldlM_eq (h : Indexed p) (elements : List ClassElement) :
    elements.foldlM ElementUnit.add p.units.toList.reverse =
      (elements.foldlM UnitPlan.add p).map (·.units.toList.reverse) := by
  induction elements generalizing p with
  | nil => rfl
  | cons e rest ih =>
    rw [List.foldlM_cons, List.foldlM_cons, h.add_eq]
    cases hadd : p.add e with
    | error fault => rfl
    | ok p' => exact ih (h.add hadd)

end UnitPlan

/-- The units of a body are those that a search for the latest unit of each slot gives. -/
theorem ElementUnit.ofElements_eq (elements : List ClassElement) :
    ofElements elements = (elements.foldlM add []).map List.reverse := by
  have hfold := UnitPlan.indexed_empty.foldlM_eq elements
  change elements.foldlM add [] = _ at hfold
  rw [ofElements, hfold]
  cases elements.foldlM UnitPlan.add {} with
  | error fault => rfl
  | ok p => exact congrArg Except.ok (List.reverse_reverse _).symm

end Decoration
