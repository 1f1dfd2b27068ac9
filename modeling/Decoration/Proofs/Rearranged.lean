import Decoration.Proofs.Slotwise
import Mathlib.Tactic.Choose

/-! The order of members that have nothing to do with each other does not matter. Bodies with the same
elements in every slot are evaluated to classes that hold the same, up to the identities of functions
and the sites of memoizations. -/

namespace Decoration

open Decoration.Action

variable {σ : Type}

section Bodies

open ElementGroup (ofSlot bare)

def ClassElement.SameSlots (elements elements' : List ClassElement) : Prop :=
  ∀ name isStatic,
    elements'.filter (·.inSlot name isStatic) = elements.filter (·.inSlot name isStatic)

theorem ClassElement.SameSlots.perm {elements elements' : List ClassElement}
    (h : SameSlots elements elements') : elements'.Perm elements := by
  refine List.perm_iff_count.mpr fun e => ?_
  have hcount : ∀ l : List ClassElement,
      (l.filter (·.inSlot e.name e.isStatic)).count e = l.count e := fun l =>
    List.count_filter (inSlot_iff.mpr ⟨rfl, rfl⟩)
  rw [← hcount elements', h, hcount]

namespace Grouping

variable {elements elements' : List ClassElement} {groups groups' : List ElementGroup}

theorem map_bare_eq (h : Grouping elements groups) (h' : Grouping elements' groups')
    (hslots : ClassElement.SameSlots elements elements') (name : String) (isStatic : Bool) :
    (groups'.filter (·.inSlot name isStatic)).map bare =
      (groups.filter (·.inSlot name isStatic)).map bare := by
  have hfst : ∀ elements : List ClassElement,
      (elements.zipIdx.filter (·.1.inSlot name isStatic)).map Prod.fst =
        elements.filter (·.inSlot name isStatic) := by
    intro elements
    conv_rhs => rw [← List.zipIdx_map_fst 0 elements, List.filter_map]
    rfl
  rw [h.slot, h'.slot]
  refine ElementGroup.map_bare_ofSlot ?_
  rw [hfst, hfst, hslots]

theorem clashes_of_sameSlots (h : Grouping elements groups) (h' : Grouping elements' groups')
    (hslots : ClassElement.SameSlots elements elements') (hclash : ∃ g ∈ groups', g.Clashes) :
    ∃ g ∈ groups, g.Clashes := by
  obtain ⟨g', hg', hclash⟩ := hclash
  have hself : g'.inSlot g'.first.1.name g'.first.1.isStatic = true :=
    ClassElement.inSlot_iff.mpr ⟨rfl, rfl⟩
  have hmem := List.mem_map_of_mem (f := bare) (List.mem_filter.mpr ⟨hg', hself⟩)
  rw [h.map_bare_eq h' hslots] at hmem
  obtain ⟨g, hg, hbare⟩ := List.mem_map.mp hmem
  refine ⟨g, (List.mem_filter.mp hg).1, ?_⟩
  rwa [← g.clashes_bare, hbare, g'.clashes_bare]

end Grouping

theorem ElementUnit.ofElements_of_sameSlots {elements elements' : List ClassElement}
    {units : List ElementUnit} (hslots : ClassElement.SameSlots elements elements')
    (h : ofElements elements = .ok units) : ∃ units', ofElements elements' = .ok units' ∧
      ∀ name isStatic,
        units'.filter (·.inSlot name isStatic) = units.filter (·.inSlot name isStatic) := by
  obtain ⟨groups, hgroups, -, hmade⟩ := exists_grouping elements
  obtain ⟨groups', hgroups', -, hmade'⟩ := exists_grouping elements'
  rcases hmade with ⟨hnone, hmade⟩ | ⟨first, second, -, hmade⟩
  · cases hmade.symm.trans h
    rcases hmade' with ⟨-, hmade'⟩ | ⟨first, second, hclash, -⟩
    · refine ⟨_, hmade', fun name isStatic => ?_⟩
      have hunits : ∀ gs : List ElementGroup,
          (gs.map ElementGroup.unit).filter (·.inSlot name isStatic) =
            ((gs.filter (·.inSlot name isStatic)).map bare).map ElementGroup.unit := by
        intro gs
        rw [List.filter_map, List.map_map]
        congr 1
        · funext g
          exact g.unit_bare.symm
        · congr 1
          funext g
          exact g.unit_inSlot name isStatic
      rw [hunits, hunits, hgroups.map_bare_eq hgroups' hslots]
    · obtain ⟨g, hg, hclashes⟩ := hgroups.clashes_of_sameSlots hgroups' hslots
        ⟨_, hclash.mem, hclash.clashes⟩
      exact absurd hclashes (hnone g hg)
  · cases hmade.symm.trans h

end Bodies

theorem ElementUnit.inSlot_iff {name : String} {isStatic : Bool} {u : ElementUnit} :
    u.inSlot name isStatic = true ↔ u.name = name ∧ u.isStatic = isStatic := by
  rw [inSlot, Bool.and_eq_true, beq_iff_eq, beq_iff_eq]

theorem ElementUnit.inSlot_self (u : ElementUnit) : u.inSlot u.name u.isStatic = true :=
  inSlot_iff.mpr ⟨rfl, rfl⟩

namespace Engine

variable {e : Engine σ} {g : Stage σ} {env : Environment} {units before after : List ElementUnit}
  {u : ElementUnit} {name : String} {isStatic : Bool} {ρ : Renaming} {w₀ a b v v' v₁ : World σ}

theorem yields_evaluateUnits_concat : (e.evaluateUnits g.pair env (before ++ [u])).Yields w₀ () v₁ ↔
    ∃ v, (e.evaluateUnits g.pair env before).Yields w₀ () v ∧
      (e.evaluateUnit g.pair env u).Yields v () v₁ :=
  yields_evaluateUnits_append.trans
    (exists_congr fun _ => and_congr_right' yields_evaluateUnits_singleton)

theorem frame_evaluateUnits (hs : e.store = .ordinary σ)
    (hunits : ∀ u ∈ units, u.Independent e.caller env g.hidden g.start) (r : g.Reached v)
    (h : (e.evaluateUnits g.pair env units).Yields v () v₁) :
    g.Reached v₁ ∧ v.heap.KeepsKinds v₁.heap ∧ ∀ name isStatic,
      (∀ u ∈ units, u.inSlot name isStatic = false) →
      v₁.heap.own? (g.pair.side isStatic) name = v.heap.own? (g.pair.side isStatic) name := by
  induction units generalizing v with
  | nil =>
    obtain ⟨-, rfl⟩ := yields_pure.mp h
    exact ⟨r, (Heap.Grows.refl _).keepsKinds, fun _ _ _ => rfl⟩
  | cons u rest ih =>
    rw [List.forall_mem_cons] at hunits
    obtain ⟨⟨⟩, v₂, hu, hrest⟩ := yields_bind.mp h
    have hsteps := steps_evaluateUnit hs hunits.1 r hu
    obtain ⟨r₁, hk, hown⟩ := ih hunits.2 hsteps.reached hrest
    refine ⟨r₁, hsteps.defines.keepsKinds.trans hk, fun name isStatic hother => ?_⟩
    rw [List.forall_mem_cons] at hother
    refine (hown name isStatic hother.2).trans (hsteps.own?_of_ne r ?_)
    rintro ⟨rfl, rfl⟩
    exact nomatch u.inSlot_self.symm.trans hother.1

def MadeIn (e : Engine σ) (pair : ClassPair) (env : Environment) (w₀ : World σ)
    (units : List ElementUnit) (name : String) (isStatic : Bool) (x : ObjectId) : Prop :=
  ∃ before u after v v₁, units = before ++ u :: after ∧ u.inSlot name isStatic = true ∧
    (e.evaluateUnits pair env before).Yields w₀ () v ∧ (e.evaluateUnit pair env u).Yields v () v₁ ∧
    v.heap.objects.size ≤ x.index ∧ x.index < v₁.heap.objects.size

theorem MadeIn.append {x : ObjectId} (h : MadeIn e g.pair env w₀ units name isStatic x)
    (more : List ElementUnit) : MadeIn e g.pair env w₀ (units ++ more) name isStatic x := by
  obtain ⟨before, u, after, v, v₁, rfl, rest⟩ := h
  exact ⟨before, u, after ++ more, v, v₁, by simp, rest⟩

theorem size_le_of_evaluateUnits (hs : e.store = .ordinary σ)
    (hunits : ∀ u' ∈ before ++ u :: after, u'.Independent e.caller env g.hidden g.start)
    (r : g.Reached w₀) (hbefore : (e.evaluateUnits g.pair env before).Yields w₀ () v)
    (hu : (e.evaluateUnit g.pair env u).Yields v () v₁)
    (hall : (e.evaluateUnits g.pair env (before ++ u :: after)).Yields w₀ () a) :
    v₁.heap.objects.size ≤ a.heap.objects.size := by
  rw [List.forall_mem_append, List.forall_mem_cons] at hunits
  obtain ⟨v', hbefore', hrest⟩ := yields_evaluateUnits_append.mp hall
  obtain ⟨-, rfl⟩ := hbefore.unique hbefore'
  obtain ⟨⟨⟩, v₁', hu', hafter⟩ := yields_bind.mp hrest
  obtain ⟨-, rfl⟩ := hu.unique hu'
  have r₁ := (frame_evaluateUnits hs hunits.1 r hbefore).1
  have r₂ := (steps_evaluateUnit hs hunits.2.1 r₁ hu).reached
  exact (frame_evaluateUnits hs hunits.2.2 r₂ hafter).2.1.size

theorem MadeIn.slot_eq (hs : e.store = .ordinary σ)
    (hunits : ∀ u ∈ units, u.Independent e.caller env g.hidden g.start) (r : g.Reached w₀)
    {x : ObjectId} {other : String} {side : Bool} (h : MadeIn e g.pair env w₀ units name isStatic x)
    (h' : MadeIn e g.pair env w₀ units other side x) : other = name ∧ side = isStatic := by
  obtain ⟨before, u, after, v, v₁, rfl, hslot, hbefore, hu, hle, hlt⟩ := h
  obtain ⟨before', u', after', v', v₁', heq, hslot', hbefore', hu', hle', hlt'⟩ := h'
  have hsub : ∀ {l l' : List ElementUnit}, before ++ u :: after = l ++ l' →
      ∀ x ∈ l, x.Independent e.caller env g.hidden g.start := fun hl x hx =>
    hunits x (hl ▸ List.mem_append_left _ hx)
  have hsame : u' = u → other = name ∧ side = isStatic := by
    rintro rfl
    obtain ⟨hname, hstatic⟩ := ElementUnit.inSlot_iff.mp hslot
    obtain ⟨hname', hstatic'⟩ := ElementUnit.inSlot_iff.mp hslot'
    exact ⟨hname'.symm.trans hname, hstatic'.symm.trans hstatic⟩
  rcases List.append_eq_append_iff.mp heq with ⟨between, rfl, hrest⟩ | ⟨between, rfl, hrest⟩
  · cases between with
    | nil => exact hsame (List.cons.inj hrest).1.symm
    | cons first between =>
      obtain ⟨rfl, -⟩ := List.cons.inj hrest
      have hsize := size_le_of_evaluateUnits hs (hsub heq) r hbefore hu hbefore'
      omega
  · cases between with
    | nil => exact hsame (List.cons.inj hrest).1
    | cons first between =>
      obtain ⟨rfl, -⟩ := List.cons.inj hrest
      have hsize := size_le_of_evaluateUnits hs (hsub rfl) r hbefore' hu' hbefore
      omega

/-- How far the evaluation of `units` has come in one slot when all of `others` are evaluated: what it
holds there is what the other holds, and the objects that stand for each other were made there. -/
structure KeepsUp (e : Engine σ) (g : Stage σ) (env : Environment) (w₀ : World σ)
    (units others : List ElementUnit) (b : World σ) (name : String) (isStatic : Bool) (ρ : Renaming)
    (done : List ElementUnit) (a : World σ) : Prop where
  filter : done.filter (·.inSlot name isStatic) = others.filter (·.inSlot name isStatic)
  yields : (e.evaluateUnits g.pair env done).Yields w₀ () a
  mirrors : g.Mirrors name isStatic ρ a b
  made : ∀ x y, ρ x y → g.base ≤ x.index →
    MadeIn e g.pair env w₀ units name isStatic x ∧ MadeIn e g.pair env w₀ others name isStatic y

theorem KeepsUp.next (hs : e.store = .ordinary σ)
    (hunits : ∀ u ∈ units, u.Independent e.caller env g.hidden g.start)
    (hall : (e.evaluateUnits g.pair env units).Yields w₀ () a)
    {others done rest : List ElementUnit} (heq : units = done ++ rest)
    (hothers : (e.evaluateUnits g.pair env others).Yields w₀ () b)
    (hk : KeepsUp e g env w₀ units others b u.name u.isStatic ρ done v)
    (hnext : (others ++ [u]).filter (·.inSlot u.name u.isStatic) <+:
      units.filter (·.inSlot u.name u.isStatic)) :
    ∃ b' done' rest' v' ρ', (e.evaluateUnit g.pair env u).Yields b () b' ∧ units = done' ++ rest' ∧
      KeepsUp e g env w₀ units (others ++ [u]) b' u.name u.isStatic ρ' done' v' ∧ u ∈ units := by
  obtain ⟨skipped, later, rfl, hskipped⟩ : ∃ skipped later, rest = skipped ++ u :: later ∧
      ∀ x ∈ skipped, x.inSlot u.name u.isStatic = false := by
    rw [heq, List.filter_append, List.filter_append, hk.filter, List.prefix_append_right_inj,
      List.filter_singleton, u.inSlot_self, cond_true] at hnext
    obtain ⟨tail, htail⟩ := hnext
    obtain ⟨skipped, later, hrest, hskipped, -⟩ := List.filter_eq_cons_iff.mp htail.symm
    exact ⟨skipped, later, hrest, by simpa using hskipped⟩
  subst heq
  have hindependent := hunits
  simp only [List.forall_mem_append, List.forall_mem_cons] at hindependent
  obtain ⟨v', hdone, hrest⟩ := yields_evaluateUnits_append.mp hall
  obtain ⟨-, rfl⟩ := hk.yields.unique hdone
  obtain ⟨v₂, hskip, hrest⟩ := yields_evaluateUnits_append.mp hrest
  obtain ⟨⟨⟩, v₃, hu, -⟩ := yields_bind.mp hrest
  obtain ⟨r₂, hkinds, hown⟩ := frame_evaluateUnits hs hindependent.2.1 hk.mirrors.left hskip
  have m₂ := hk.mirrors.leads r₂ hk.mirrors.right
    (.keepsKinds hk.mirrors.joins hkinds (Heap.Grows.refl _).keepsKinds) (hown _ _ hskipped) rfl
  obtain ⟨b', ρ', hu', hleads, m₃⟩ := mirrors_evaluateUnit hs hindependent.2.2.1 m₂ hu
  have hbefore : (e.evaluateUnits g.pair env (done ++ skipped)).Yields w₀ () v₂ :=
    yields_evaluateUnits_append.mpr ⟨v, hk.yields, hskip⟩
  refine ⟨b', done ++ skipped ++ [u], later, v₃, ρ', hu', by simp, ⟨?_, ?_, m₃, ?_⟩, by simp⟩
  · have hnone : skipped.filter (·.inSlot u.name u.isStatic) = [] := by simpa using hskipped
    rw [List.filter_append, List.filter_append, hk.filter, hnone, List.append_nil, List.filter_append]
  · exact yields_evaluateUnits_concat.mpr ⟨v₂, hbefore, hu⟩
  · intro x y hxy hx
    rcases hleads.new x y hxy with hold | ⟨hxle, hyle⟩
    · exact ⟨(hk.made x y hold hx).1, (hk.made x y hold hx).2.append _⟩
    · obtain ⟨hxlt, hylt⟩ := hleads.joins.bound hxy
      exact ⟨⟨done ++ skipped, u, later, v₂, v₃, by simp, u.inSlot_self, hbefore, hu, hxle, hxlt⟩,
        ⟨others, u, [], b, b', rfl, u.inSlot_self, hothers, hu', hyle, hylt⟩⟩

theorem KeepsUp.other {others done : List ElementUnit} (hs : e.store = .ordinary σ)
    (hu : u.Independent e.caller env g.hidden g.start)
    (hk : KeepsUp e g env w₀ units others b name isStatic ρ done v)
    (hyields : (e.evaluateUnit g.pair env u).Yields b () v')
    (hslot : u.inSlot name isStatic = false) :
    KeepsUp e g env w₀ units (others ++ [u]) v' name isStatic ρ done v := by
  have hsteps := steps_evaluateUnit hs hu hk.mirrors.right hyields
  have hne : ¬(name = u.name ∧ isStatic = u.isStatic) := by
    rintro ⟨rfl, rfl⟩
    exact nomatch u.inSlot_self.symm.trans hslot
  refine ⟨?_, hk.yields, ?_, fun x y hxy hx => ?_⟩
  · rw [List.filter_append, List.filter_singleton, hslot, cond_false, List.append_nil, hk.filter]
  · exact hk.mirrors.leads hk.mirrors.left hsteps.reached
      (.keepsKinds hk.mirrors.joins (Heap.Grows.refl _).keepsKinds hsteps.defines.keepsKinds) rfl
      (hsteps.own?_of_ne hk.mirrors.right hne)
  · exact ⟨(hk.made x y hxy hx).1, (hk.made x y hxy hx).2.append _⟩

theorem exists_keepsUp (hs : e.store = .ordinary σ)
    (hunits : ∀ u ∈ units, u.Independent e.caller env g.hidden g.start)
    (m₀ : ∀ name isStatic, ∃ ρ, g.Mirrors name isStatic ρ w₀ w₀ ∧ ∀ x y, ρ x y → x.index < g.base)
    (hall : (e.evaluateUnits g.pair env units).Yields w₀ () a) {others : List ElementUnit}
    (hothers : ∀ name isStatic, others.filter (·.inSlot name isStatic) <+:
      units.filter (·.inSlot name isStatic)) :
    ∃ b, (e.evaluateUnits g.pair env others).Yields w₀ () b ∧ ∀ name isStatic, ∃ done rest v ρ,
      units = done ++ rest ∧ KeepsUp e g env w₀ units others b name isStatic ρ done v := by
  induction others using List.reverseRecOn with
  | nil =>
    refine ⟨w₀, yields_pure.mpr ⟨rfl, rfl⟩, fun name isStatic => ?_⟩
    obtain ⟨ρ, hmirrors, hbase⟩ := m₀ name isStatic
    exact ⟨[], units, w₀, ρ, rfl, rfl, yields_pure.mpr ⟨rfl, rfl⟩, hmirrors, fun x y hxy hx =>
      absurd (hbase x y hxy) (Nat.not_lt_of_le hx)⟩
  | append_singleton others u ih =>
    have hbefore : ∀ name isStatic, others.filter (·.inSlot name isStatic) <+:
        units.filter (·.inSlot name isStatic) := by
      intro name isStatic
      have hprefix := hothers name isStatic
      rw [List.filter_append] at hprefix
      exact (List.prefix_append _ _).trans hprefix
    obtain ⟨b, hb, hslots⟩ := ih hbefore
    obtain ⟨done, rest, v, ρ, heq, hk⟩ := hslots u.name u.isStatic
    obtain ⟨b', done', rest', v', ρ', hu, heq', hk', hmem⟩ :=
      hk.next hs hunits hall heq hb (hothers u.name u.isStatic)
    refine ⟨b', yields_evaluateUnits_concat.mpr ⟨b, hb, hu⟩, fun name isStatic => ?_⟩
    cases hslot : u.inSlot name isStatic with
    | true =>
      obtain ⟨rfl, rfl⟩ := ElementUnit.inSlot_iff.mp hslot
      exact ⟨done', rest', v', ρ', heq', hk'⟩
    | false =>
      obtain ⟨done, rest, v, ρ, heq, hk⟩ := hslots name isStatic
      exact ⟨done, rest, v, ρ, heq, hk.other hs (hunits u hmem) hu hslot⟩

theorem joins_slots (hs : e.store = .ordinary σ)
    (hunits : ∀ u ∈ units, u.Independent e.caller env g.hidden g.start) {others : List ElementUnit}
    (hothers : ∀ u ∈ others, u.Independent e.caller env g.hidden g.start) (r₀ : g.Reached w₀)
    {family : String → Bool → Renaming}
    (hjoins : ∀ name isStatic, (family name isStatic).Joins g.base a.heap b.heap)
    (hmade : ∀ name isStatic x y, family name isStatic x y → g.base ≤ x.index →
      MadeIn e g.pair env w₀ units name isStatic x ∧ MadeIn e g.pair env w₀ others name isStatic y) :
    Renaming.Joins (fun x y => ∃ name isStatic, family name isStatic x y) g.base a.heap b.heap where
  size := (hjoins "" false).size
  size' := (hjoins "" false).size'
  fixed id hid := ⟨"", false, (hjoins "" false).fixed id hid⟩
  kept := (hjoins "" false).kept
  made := by
    rintro x y ⟨name, isStatic, hxy⟩ hx
    obtain ⟨c, c', hc, hc', hmatch⟩ := (hjoins name isStatic).made x y hxy hx
    exact ⟨c, c', hc, hc', hmatch.mono fun x y hxy => ⟨name, isStatic, hxy⟩⟩
  functional := by
    rintro x y y' ⟨name, isStatic, hxy⟩ ⟨other, side, hxy'⟩
    rcases Nat.lt_or_ge x.index g.base with hx | hx
    · rw [(hjoins name isStatic).eq_of_lt hxy hx, (hjoins other side).eq_of_lt hxy' hx]
    · obtain ⟨rfl, rfl⟩ :=
        MadeIn.slot_eq hs hunits r₀ (hmade _ _ x y hxy hx).1 (hmade _ _ x y' hxy' hx).1
      exact (hjoins other side).functional x y y' hxy hxy'
  injective := by
    rintro x x' y ⟨name, isStatic, hxy⟩ ⟨other, side, hxy'⟩
    rcases Nat.lt_or_ge y.index g.base with hy | hy
    · rw [(hjoins name isStatic).injective x y y hxy ((hjoins name isStatic).fixed y hy),
        (hjoins other side).injective x' y y hxy' ((hjoins other side).fixed y hy)]
    · obtain ⟨rfl, rfl⟩ := MadeIn.slot_eq hs hothers r₀
        (hmade _ _ x y hxy ((hjoins name isStatic).le_left hxy hy)).2
        (hmade _ _ x' y hxy' ((hjoins other side).le_left hxy' hy)).2
      exact (hjoins other side).injective x x' y hxy hxy'

theorem exists_joins (hs : e.store = .ordinary σ)
    (hunits : ∀ u ∈ units, u.Independent e.caller env g.hidden g.start) (r₀ : g.Reached w₀)
    (m₀ : ∀ name isStatic, ∃ ρ, g.Mirrors name isStatic ρ w₀ w₀ ∧ ∀ x y, ρ x y → x.index < g.base)
    (hall : (e.evaluateUnits g.pair env units).Yields w₀ () a) {others : List ElementUnit}
    (hslots : ∀ name isStatic, others.filter (·.inSlot name isStatic) =
      units.filter (·.inSlot name isStatic)) :
    ∃ b, (e.evaluateUnits g.pair env others).Yields w₀ () b ∧
      ∃ ρ : Renaming, ρ.Joins g.base a.heap b.heap ∧ ∀ name isStatic,
        Option.Rel (Descriptor.Match ρ) (a.heap.own? (g.pair.side isStatic) name)
          (b.heap.own? (g.pair.side isStatic) name) := by
  have hprefix : ∀ name isStatic, others.filter (·.inSlot name isStatic) <+:
      units.filter (·.inSlot name isStatic) :=
    fun name isStatic => hslots name isStatic ▸ List.prefix_refl _
  obtain ⟨b, hothers, hkeeps⟩ := exists_keepsUp hs hunits m₀ hall hprefix
  -- What is left of the units when the others are done are units of other slots.
  have hfull : ∀ name isStatic, ∃ ρ, g.Mirrors name isStatic ρ a b ∧ ∀ x y, ρ x y →
      g.base ≤ x.index → MadeIn e g.pair env w₀ units name isStatic x ∧
        MadeIn e g.pair env w₀ others name isStatic y := by
    intro name isStatic
    obtain ⟨done, rest, v, ρ, rfl, hk⟩ := hkeeps name isStatic
    have hnone : rest.filter (·.inSlot name isStatic) = [] := by
      have hslot := hslots name isStatic
      rw [List.filter_append, hk.filter] at hslot
      exact List.self_eq_append_right.mp hslot
    obtain ⟨v', hdone, hrest⟩ := yields_evaluateUnits_append.mp hall
    obtain ⟨-, rfl⟩ := hk.yields.unique hdone
    rw [List.forall_mem_append] at hunits
    obtain ⟨r, hkinds, hown⟩ := frame_evaluateUnits hs hunits.2 hk.mirrors.left hrest
    refine ⟨ρ, hk.mirrors.leads r hk.mirrors.right (.keepsKinds hk.mirrors.joins hkinds
      (Heap.Grows.refl _).keepsKinds) (hown name isStatic ?_) rfl, hk.made⟩
    simpa using hnone
  choose family hmirrors hmade using hfull
  have hmem : ∀ u ∈ others, u ∈ units := by
    intro u hu
    have hfilter : u ∈ others.filter (·.inSlot u.name u.isStatic) :=
      List.mem_filter.mpr ⟨hu, u.inSlot_self⟩
    rw [hslots] at hfilter
    exact (List.mem_filter.mp hfilter).1
  refine ⟨b, hothers, _, joins_slots hs hunits (fun u hu => hunits u (hmem u hu)) r₀
    (fun name isStatic => (hmirrors name isStatic).joins) hmade, fun name isStatic => ?_⟩
  exact Descriptor.match_own_mono (fun x y hxy => ⟨name, isStatic, hxy⟩) (hmirrors name isStatic).slot

end Engine

namespace Stage

variable {S : σ → Array Memo → Prop} {w w₀ : World σ} {pair : ClassPair} {className : String}

def begin (hstart : S w.host w.heap.memos)
    (hcreate : (ClassPair.create className : Action σ DecorationFault ClassPair).Yields w pair w₀) :
    Stage σ where
  hidden := S
  start := w
  kept := hstart
  pair := pair
  base := w₀.heap.objects.size
  distinct := (ClassPair.objects_of_create hcreate).1
  fresh := Engine.fresh_of_create hcreate
  start_le := ((Engine.spares_create className).yields hcreate).size

variable (hstart : S w.host w.heap.memos)
  (hcreate : (ClassPair.create className : Action σ DecorationFault ClassPair).Yields w pair w₀)

theorem reached_begin : (begin hstart hcreate).Reached w₀ where
  later := by
    have hgrows := (Engine.spares_create className).yields hcreate
    obtain ⟨-, rfl⟩ := yields_onHeap.mp hcreate
    exact ⟨hgrows, Nat.le_refl _, fun _ _ => rfl, hstart⟩
  size := Nat.le_refl _
  extensible := (ClassPair.underway_of_create hcreate).extensible

theorem mirrors_begin (name : String) (isStatic : Bool) : ∃ ρ,
    (begin hstart hcreate).Mirrors name isStatic ρ w₀ w₀ ∧
      ∀ x y, ρ x y → x.index < (begin hstart hcreate).base := by
  have r₀ := reached_begin hstart hcreate
  refine ⟨_, ⟨r₀, r₀, Renaming.Joins.refl w₀.heap, ?_⟩, fun x y hxy => hxy.2⟩
  have hfixed := (Renaming.Joins.refl w₀.heap).fixed
  obtain ⟨kind, hobject⟩ := ClassPair.links_of_create hcreate isStatic
  have hown : w₀.heap.own? (pair.side isStatic) name =
      if name = ClassPair.firstKey isStatic then some (pair.firstDescriptor isStatic) else none := by
    rw [Heap.own?, hobject, Object.insert, Properties.find?_insert]
    rfl
  change Option.Rel _ (w₀.heap.own? (pair.side isStatic) name)
    (w₀.heap.own? (pair.side isStatic) name)
  rw [hown]
  split
  · refine .some ?_
    cases isStatic with
    | false => exact .data (.object (hfixed _ (r₀.bound true)))
    | true => exact .data (.object (hfixed _ (r₀.bound false)))
  · exact .none

end Stage

namespace Engine

theorem kinds_unit (e : ClassElement) : e.unit.shape.kinds = [e.kind] := by
  rw [ClassElement.unit]
  cases hk : e.kind <;> rfl

theorem mem_kinds_of_completed? {u : ElementUnit} {e : ClassElement} {shape : UnitShape}
    (h : u.completed? e = some shape) {kind : ElementKind} (hkind : kind ∈ shape.kinds) :
    kind = e.kind ∨ kind ∈ u.shape.kinds := by
  rw [ElementUnit.completed?] at h
  split at h
  · rename_i hu he
    obtain rfl := Option.some.inj h
    rw [hu, he]
    simpa [UnitShape.kinds] using hkind
  · rename_i hu he
    obtain rfl := Option.some.inj h
    rw [hu, he]
    simpa [UnitShape.kinds, or_comm] using hkind
  · cases h

theorem independent_ofElements {caller : Caller σ} {env : Environment} {S : σ → Array Memo → Prop}
    {w : World σ} {elements : List ClassElement} {units : List ElementUnit}
    (h : ElementUnit.ofElements elements = .ok units)
    (helements : ∀ e ∈ elements, e.Independent caller env S w) :
    ∀ u ∈ units, u.Independent caller env S w := by
  have hwritten : ∀ e ∈ elements, ∀ written ∈ e.decorators, ∀ x ∈ written.expressions,
      x.Settled caller env S w := fun e he written hwritten x hx => (helements e he).settled x
    (List.mem_append_left _ (List.mem_flatMap.mpr ⟨written, hwritten, hx⟩))
  refine ElementUnit.forall_ofElements h (fun e he => ?_) (fun e he u shape hu hshape => ?_)
  · refine ⟨hwritten e he, (helements e he).decorators, fun x hx => ?_, fun kind hkind => ?_⟩
    · have hkind : e.kind = .field (some x) := by
        have hkinds := kinds_unit e
        rw [hx] at hkinds
        exact (List.cons.inj hkinds).1.symm
      refine (helements e he).settled x ?_
      rw [ClassElement.expressions, hkind]
      exact List.mem_append_right _ List.mem_cons_self
    · rw [kinds_unit, List.mem_singleton] at hkind
      exact hkind ▸ (helements e he).body
  · refine ⟨?_, ?_, fun x hx => ?_, fun kind hkind => ?_⟩
    · exact List.forall_mem_append.mpr ⟨hu.settled, hwritten e he⟩
    · exact List.forall_mem_append.mpr ⟨hu.decorators, (helements e he).decorators⟩
    · have hx : shape = .field (some x) := hx
      rw [ElementUnit.completed?, hx] at hshape
      split at hshape <;> cases hshape
    · rcases mem_kinds_of_completed? hshape hkind with rfl | hkind
      · exact (helements e he).body
      · exact hu.bodies kind hkind

theorem exists_evaluateMembers {caller : Caller σ} {config : Config} {env : Environment}
    {S : σ → Array Memo → Prop} {w v : World σ} (hstart : S w.host w.heap.memos) {decl : ClassDecl}
    {first second : List ClassElement} (hslots : ClassElement.SameSlots first second)
    (hfirst : ∀ e ∈ first, e.Independent caller env S w) {pair : ClassPair} {units : List ElementUnit}
    (h : (evaluateMembers ⟨caller, .ordinary σ, config⟩ { decl with elements := first } env).Yields w
      (pair, units) v) :
    ∃ units' v', (evaluateMembers ⟨caller, .ordinary σ, config⟩ { decl with elements := second }
        env).Yields w (pair, units') v' ∧
      ∃ ρ : Renaming, ρ.Joins (w.heap.objects.size + 2) v.heap v'.heap ∧ ∀ isStatic key,
        Option.Rel (Descriptor.Match ρ) (v.heap.own? (pair.side isStatic) key)
          (v'.heap.own? (pair.side isStatic) key) := by
  obtain ⟨w₀, hcreate, hplan, hunits⟩ := yields_evaluateMembers.mp h
  obtain ⟨units', hplan', hsame⟩ := ElementUnit.ofElements_of_sameSlots hslots hplan
  obtain ⟨v', hunits', ρ, hjoins, hmatch⟩ := exists_joins (g := Stage.begin hstart hcreate) rfl
    (independent_ofElements hplan hfirst) (Stage.reached_begin hstart hcreate)
    (Stage.mirrors_begin hstart hcreate) hunits hsame
  have hbase : w₀.heap.objects.size = w.heap.objects.size + 2 := by
    obtain ⟨-, rfl⟩ := yields_onHeap.mp hcreate
    simp [Heap.addObject]
  refine ⟨units', v', yields_evaluateMembers.mpr ⟨w₀, hcreate, hplan', hunits'⟩, ρ, ?_,
    fun isStatic key => hmatch key isStatic⟩
  rw [← hbase]
  exact hjoins

theorem mem_ownKeys_iff_of_rel {R : Descriptor → Descriptor → Prop} {h h' : Heap} {id : ObjectId}
    {key : String} (hrel : Option.Rel R (h.own? id key) (h'.own? id key)) :
    key ∈ h'.ownKeys id ↔ key ∈ h.ownKeys id := by
  have hnone : h'.own? id key = none ↔ h.own? id key = none := by
    generalize h.own? id key = found at hrel ⊢
    generalize h'.own? id key = found' at hrel ⊢
    cases hrel <;> simp
  rw [Heap.own?, Heap.own?, Properties.find?_eq_none, Properties.find?_eq_none] at hnone
  exact not_iff_not.mp hnone

/-- Bodies with the same elements in every slot are both processed without error or neither is. If they
are, the constructor and the prototype have the same keys when the decorators of the class have their
turn, and the same descriptor under each key, where the functions that were made on the way stand for
each other. -/
theorem evaluateMembers_sameSlots (caller : Caller σ) (config : Config) (env : Environment)
    (S : σ → Array Memo → Prop) (w : World σ) (hstart : S w.host w.heap.memos) (decl : ClassDecl)
    (elements' : List ClassElement) (hslots : ClassElement.SameSlots decl.elements elements')
    (helements : ∀ e ∈ decl.elements, e.Independent caller env S w) :
    ((∃ members v, (evaluateMembers ⟨caller, .ordinary σ, config⟩ decl env).Yields w members v) ↔
      ∃ members v, (evaluateMembers ⟨caller, .ordinary σ, config⟩ { decl with elements := elements' }
        env).Yields w members v) ∧
    ∀ pair units v pair' units' v',
      (evaluateMembers ⟨caller, .ordinary σ, config⟩ decl env).Yields w (pair, units) v →
      (evaluateMembers ⟨caller, .ordinary σ, config⟩ { decl with elements := elements' } env).Yields w
        (pair', units') v' →
      pair' = pair ∧ ∃ ρ : Renaming, ρ.Joins (w.heap.objects.size + 2) v.heap v'.heap ∧
        ∀ isStatic key,
          (key ∈ v'.heap.ownKeys (pair.side isStatic) ↔ key ∈ v.heap.ownKeys (pair.side isStatic)) ∧
          Option.Rel (Descriptor.Match ρ) (v.heap.own? (pair.side isStatic) key)
            (v'.heap.own? (pair.side isStatic) key) := by
  have hback : ClassElement.SameSlots elements' decl.elements :=
    fun name isStatic => (hslots name isStatic).symm
  have helements' : ∀ e ∈ elements', e.Independent caller env S w :=
    fun e he => helements e (hslots.perm.mem_iff.mp he)
  refine ⟨⟨?_, ?_⟩, fun pair units v pair' units' v' h h' => ?_⟩
  · rintro ⟨⟨pair, units⟩, v, h⟩
    obtain ⟨units', v', h', -⟩ := exists_evaluateMembers hstart hslots helements h
    exact ⟨_, v', h'⟩
  · rintro ⟨⟨pair, units'⟩, v', h'⟩
    obtain ⟨units, v, h, -⟩ := exists_evaluateMembers hstart hback helements' h'
    exact ⟨_, v, h⟩
  · obtain ⟨units'', v'', h'', ρ, hjoins, hmatch⟩ :=
      exists_evaluateMembers hstart hslots helements h
    obtain ⟨hmembers, rfl⟩ := h''.unique h'
    obtain ⟨rfl, -⟩ := Prod.mk.inj hmembers
    exact ⟨rfl, ρ, hjoins, fun isStatic key =>
      ⟨mem_ownKeys_iff_of_rel (hmatch isStatic key), hmatch isStatic key⟩⟩

def shuffledClass : ClassDecl where
  name := "Point"
  elements := [
    { name := "move", decorators := [⟨.identifier "memoize", []⟩],
      kind := .method (.constant "move" .null) },
    { name := "size", kind := .getter (.constant "size" .null) },
    { name := "origin", kind := .field (some (.identifier "readonly")) },
    { name := "size", decorators := [⟨.identifier "readonly", []⟩],
      kind := .setter (.constant "resize" .null) },
    { name := "move", isStatic := true,
      decorators := [⟨.identifier "memoize", []⟩,
        ⟨.identifier "deprecate", [.literal (.string "soon")]⟩],
      kind := .method (.constant "make" .null) }]

def shuffledElements : List ClassElement :=
  [4, 1, 3, 2, 0].filterMap (shuffledClass.elements[·]?)

def shuffledScope : Environment :=
  ⟨[[("readonly", .object ⟨0⟩), ("memoize", .object ⟨1⟩), ("deprecate", .object ⟨2⟩)]]⟩

def shuffledWorld : World Unit where
  heap := {
    objects := #[{ kind := .function (.edit .readonly) },
      { kind := .function (.edit (.memoize ⟨0⟩)) }, { kind := .function (.edit .deprecated) }]
    memos := #[{}] }
  host := ()

theorem sameSlots_shuffled : ClassElement.SameSlots shuffledClass.elements shuffledElements := by
  intro name isStatic
  by_cases hmove : name = "move"
  · subst hmove
    cases isStatic <;> rfl
  by_cases hsize : name = "size"
  · subst hsize
    cases isStatic <;> rfl
  by_cases horigin : name = "origin"
  · subst horigin
    cases isStatic <;> rfl
  have hnone : ∀ l : List ClassElement,
      (∀ e ∈ l, e.name = "move" ∨ e.name = "size" ∨ e.name = "origin") →
      l.filter (·.inSlot name isStatic) = [] := by
    intro l hl
    refine List.filter_eq_nil_iff.mpr fun e he hslot => ?_
    obtain ⟨rfl, -⟩ := ClassElement.inSlot_iff.mp hslot
    rcases hl e he with h | h | h
    exacts [hmove h, hsize h, horigin h]
  rw [hnone _ (by decide), hnone _ (by decide)]

theorem within_shuffledScope (name : String) (value : Value)
    (h : shuffledScope.lookup? name = some value) : value.Within shuffledWorld.heap.objects.size := by
  obtain ⟨scope, hscope, hvalue⟩ := Environment.exists_mem_of_lookup? h
  obtain rfl := List.mem_singleton.mp hscope
  rintro id rfl
  have hindex : id.index < 3 := by
    simp only [List.mem_cons, List.not_mem_nil, Prod.mk.injEq, Value.object.injEq,
      or_false] at hvalue
    rcases hvalue with ⟨-, rfl⟩ | ⟨-, rfl⟩ | ⟨-, rfl⟩ <;> decide
  exact hindex

theorem local_shuffled {written : DecoratorExpr}
    (hwritten : written ∈ shuffledClass.elements.flatMap ClassElement.decorators) {d : Decorator}
    {w' : World Unit} (h : (Decorator.collectOne (Caller.nested Host.none 1) shuffledScope
      written).Yields shuffledWorld d w') :
    d.Local (Caller.nested Host.none 1) (fun _ _ => True) shuffledWorld := by
  simp only [shuffledClass, List.flatMap_cons, List.flatMap_nil, List.cons_append, List.nil_append,
    List.append_nil, List.mem_cons, List.not_mem_nil, or_false] at hwritten
  rcases hwritten with rfl | rfl | rfl | rfl
  all_goals
    obtain rfl := Outcome.ok.inj h.1
    refine Decorator.local_edit _ Host.none 0 _ ?_ fun _ _ _ => trivial
  case inr.inr.inr =>
    intro x hx
    obtain rfl := List.mem_singleton.mp hx
    exact fun id hid => nomatch hid
  all_goals exact fun x hx => nomatch hx

theorem independent_shuffled : ∀ e ∈ shuffledClass.elements,
    e.Independent (Caller.nested Host.none 1) shuffledScope (fun _ _ => True) shuffledWorld := by
  have hsimple : ∀ e ∈ shuffledClass.elements, ∀ x ∈ e.expressions, x.isSimple = true := by decide
  have hbody : ∀ e ∈ shuffledClass.elements, e.kind.Within shuffledWorld.heap.objects.size := by
    intro e he
    simp only [shuffledClass, List.mem_cons, List.not_mem_nil, or_false] at he
    rcases he with rfl | rfl | rfl | rfl | rfl
    case inr.inr.inl => trivial
    all_goals exact fun id hid => nomatch hid
  exact fun e he =>
    ⟨fun x hx => Expr.settled_of_isSimple (hsimple e he x hx) within_shuffledScope,
      fun written hwritten d w' h => local_shuffled (List.mem_flatMap.mpr ⟨e, he, hwritten⟩) h,
      hbody e he⟩

theorem evaluateMembers_sameSlots_shuffled : ∃ v v' units units' ρ,
    (evaluateMembers ⟨Caller.nested Host.none 1, .ordinary Unit, {}⟩ shuffledClass
      shuffledScope).Yields shuffledWorld (⟨⟨4⟩, ⟨3⟩⟩, units) v ∧
    (evaluateMembers ⟨Caller.nested Host.none 1, .ordinary Unit, {}⟩
      { shuffledClass with elements := shuffledElements } shuffledScope).Yields shuffledWorld
      (⟨⟨4⟩, ⟨3⟩⟩, units') v' ∧
    v.heap.own? ⟨3⟩ "move" = some (.data (.object ⟨6⟩) true false true) ∧
    v'.heap.own? ⟨3⟩ "move" = some (.data (.object ⟨11⟩) true false true) ∧
    Renaming.Joins ρ 5 v.heap v'.heap ∧ ρ ⟨6⟩ ⟨11⟩ := by
  have hyields := evaluateMembers_sameSlots (Caller.nested Host.none 1) {} shuffledScope
    (fun _ _ => True) shuffledWorld trivial shuffledClass shuffledElements sameSlots_shuffled
    independent_shuffled
  obtain ⟨-, ρ, hjoins, hslots⟩ := hyields.2 ⟨⟨4⟩, ⟨3⟩⟩ _ _ ⟨⟨4⟩, ⟨3⟩⟩ _ _ ⟨rfl, rfl⟩ ⟨rfl, rfl⟩
  refine ⟨_, _, _, _, ρ, ⟨rfl, rfl⟩, ⟨rfl, rfl⟩, rfl, rfl, hjoins, ?_⟩
  have hmove : Option.Rel (Descriptor.Match ρ) (some (.data (.object ⟨6⟩) true false true))
      (some (.data (.object ⟨11⟩) true false true)) := (hslots false "move").2
  cases hmove with
  | some hmatch =>
    cases hmatch with
    | data value =>
      cases value with
      | object related => exact related

/-- A getter that answers whether it was called before, and a decorator that gives its handle the value
that its own argument holds under `used`, and then sets that. -/
def counting : Host Bool := fun _ code _ arguments =>
  match code, arguments with
  | 0, _ => fun w => ⟨.ok (.bool w.host), { w with host := true }, []⟩
  | _, [_, _, .descriptor handle, .object box] => do
    let h ← Action.heap
    let used := (h.own? box "used").bind Descriptor.value?
    Action.modifyHeap (·.setContent handle ((h.content handle).setValue (used.getD .undefined)))
    box.define "used" (.ordinary (.bool true))
    return .undefined
  | _, _ => pure .undefined

def countingEngine : Engine Bool := ⟨Caller.nested counting 1, .ordinary Bool, {}⟩

def countedField (name : String) : ClassElement :=
  { name, kind := .field (some (.member (.identifier "counter") "next")) }

def countedClass (first second : String) : ClassDecl :=
  { name := "C", elements := [countedField first, countedField second] }

def stampedField (name : String) : ClassElement :=
  { name, decorators := [⟨.identifier "stamp", [.identifier "box"]⟩], kind := .field none }

def stampedClass (first second : String) : ClassDecl :=
  { name := "C", elements := [stampedField first, stampedField second] }

def countingScope : Environment :=
  ⟨[[("counter", .object ⟨0⟩), ("stamp", .object ⟨2⟩), ("box", .object ⟨3⟩)]]⟩

def countingWorld : World Bool where
  heap := {
    objects := #[
      { properties := ⟨[("next", .accessor (some (.object ⟨1⟩)) none true true)]⟩ },
      { kind := .function (.native "next" 0) }, { kind := .function (.native "stamp" 1) }, {}] }
  host := false

theorem sameSlots_swap {x y : ClassElement} (hne : x.name ≠ y.name) :
    ClassElement.SameSlots [x, y] [y, x] := by
  intro name isStatic
  cases hx : x.inSlot name isStatic with
  | false => simp [List.filter_cons, hx]
  | true =>
    have hy : y.inSlot name isStatic = false := by
      refine Bool.of_not_eq_true fun hy => hne ?_
      exact (ClassElement.inSlot_iff.mp hx).1.trans (ClassElement.inSlot_iff.mp hy).1.symm
    simp [hx, hy]

theorem yields_counter {v : World Bool} (g : countingWorld.heap.Grows v.heap) :
    ((Expr.member (.identifier "counter") "next").evaluate countingEngine.caller
      countingScope).Yields v (.bool v.host) { v with host := true } := by
  have hfind : v.heap.find? ⟨0⟩ "next" = some (.accessor (some (.object ⟨1⟩)) none true true) := by
    refine Heap.find?_of_own? ?_
    rw [Heap.own?, g.same _ (by decide)]
    rfl
  have hnext : v.heap.capability? (.object ⟨1⟩) = some (.native "next" 0) := by
    rw [Heap.capability?, g.same _ (by decide)]
    rfl
  refine yields_bind.mpr ⟨.object ⟨0⟩, v, yields_pure.mpr ⟨rfl, rfl⟩, yields_heap_bind.mpr ?_⟩
  rw [hfind]
  refine yields_heap_bind.mpr ?_
  rw [hnext]
  exact ⟨rfl, rfl⟩

theorem touches_stamp {d : Decorator} (hd : d.capability = .native "stamp" 1) {box : ObjectId}
    (hextra : d.extra = [.object box]) {target : Target} {name : String} {handle : Handle}
    {v v' : World Bool} {result : Value} (hbound : handle.index < v.heap.cells.size)
    (h : (d.edit countingEngine.caller target name handle).Yields v result v') :
    v.heap.GrowsBut box v'.heap ∧ v'.host = v.host ∧
      ∀ other, v'.heap.content other = if other = handle then
        (v.heap.content handle).setValue
          (((v.heap.own? box "used").bind Descriptor.value?).getD .undefined)
        else v.heap.content other := by
  rw [Decorator.edit, hd, hextra] at h
  obtain ⟨⟨⟩, v₁, hset, h⟩ := yields_bind.mp (yields_heap_bind.mp h)
  obtain ⟨-, rfl⟩ := yields_onHeap.mp hset
  obtain ⟨⟨⟩, v₂, hdefine, h⟩ := yields_bind.mp h
  obtain ⟨-, rfl⟩ := ObjectId.yields_define.mp hdefine
  obtain ⟨-, rfl⟩ := yields_pure.mp h
  exact ⟨(Heap.Grows.but (v.heap.grows_setContent handle _) box).trans
    (Heap.growsBut_setObject _ box _), rfl, fun other => Heap.content_setContent hbound _ other⟩

/-- Initializers that write nothing to the heap may still count, and decorators that touch nothing but
their handle and their own argument may leave word there of their order. -/
theorem evaluateMembers_order_matters :
    (ClassElement.SameSlots (countedClass "a" "b").elements (countedClass "b" "a").elements ∧
      (∀ v, countingWorld.heap.Grows v.heap →
        ((Expr.member (.identifier "counter") "next").evaluate countingEngine.caller
          countingScope).Yields v (.bool v.host) { v with host := true }) ∧
      ∃ units units' v v',
        (evaluateMembers countingEngine (countedClass "a" "b") countingScope).Yields countingWorld
          (⟨⟨5⟩, ⟨4⟩⟩, units) v ∧
        (evaluateMembers countingEngine (countedClass "b" "a") countingScope).Yields countingWorld
          (⟨⟨5⟩, ⟨4⟩⟩, units') v' ∧
        v.heap.own? ⟨4⟩ "a" = some (.data (.bool false) true false true) ∧
        v'.heap.own? ⟨4⟩ "a" = some (.data (.bool true) true false true)) ∧
    (ClassElement.SameSlots (stampedClass "a" "b").elements (stampedClass "b" "a").elements ∧
      (∀ d : Decorator, d.capability = .native "stamp" 1 → d.extra = [.object ⟨3⟩] →
        ∀ target name handle v result v', handle.index < v.heap.cells.size →
          (d.edit countingEngine.caller target name handle).Yields v result v' →
          v.heap.GrowsBut ⟨3⟩ v'.heap ∧ v'.host = v.host ∧
            ∀ other, v'.heap.content other = if other = handle then
              (v.heap.content handle).setValue
                (((v.heap.own? ⟨3⟩ "used").bind Descriptor.value?).getD .undefined)
              else v.heap.content other) ∧
      ∃ units units' v v',
        (evaluateMembers countingEngine (stampedClass "a" "b") countingScope).Yields countingWorld
          (⟨⟨5⟩, ⟨4⟩⟩, units) v ∧
        (evaluateMembers countingEngine (stampedClass "b" "a") countingScope).Yields countingWorld
          (⟨⟨5⟩, ⟨4⟩⟩, units') v' ∧
        v.heap.own? ⟨4⟩ "a" = some (.data .undefined true false true) ∧
        v'.heap.own? ⟨4⟩ "a" = some (.data (.bool true) true false true)) :=
  ⟨⟨sameSlots_swap (by decide), fun _ g => yields_counter g,
      _, _, _, _, ⟨rfl, rfl⟩, ⟨rfl, rfl⟩, rfl, rfl⟩,
    sameSlots_swap (by decide), fun _ hd hextra _ _ _ _ _ _ hbound h =>
      touches_stamp hd hextra hbound h,
      _, _, _, _, ⟨rfl, rfl⟩, ⟨rfl, rfl⟩, rfl, rfl⟩

end Engine
end Decoration
