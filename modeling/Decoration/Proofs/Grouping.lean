import Decoration.Proofs.Pairing
import Mathlib.Data.List.Perm.Basic
import Mathlib.Data.List.Sort

/-! The units of a class body are the groups that each slot forms by itself, from left to right, in the
order of their first elements. Elements are told apart by their positions. -/

namespace Decoration

/-- An element that stands for itself, or two neighbours of a slot that oppose each other. -/
inductive ElementGroup where
  | alone (e : ClassElement × Nat)
  | pair (first second : ClassElement × Nat)
deriving DecidableEq, Repr

namespace ElementGroup

def first : ElementGroup → ClassElement × Nat
  | alone e => e
  | pair first _ => first

def members : ElementGroup → List (ClassElement × Nat)
  | alone e => [e]
  | pair first second => [first, second]

def position (g : ElementGroup) : Nat := g.first.2

def inSlot (name : String) (isStatic : Bool) (g : ElementGroup) : Bool :=
  g.first.1.inSlot name isStatic

def Clashes : ElementGroup → Prop
  | alone _ => False
  | pair first second => first.1.decorators ≠ [] ∧ second.1.decorators ≠ []

def unit : ElementGroup → ElementUnit
  | alone e => e.1.unit
  | pair first second =>
    { first.1.unit with
      shape := first.1.paired second.1
      decorators :=
        if first.1.decorators = [] then second.1.decorators else first.1.decorators }

/-- The groups of one slot: neighbours that oppose each other go together, from left to right. -/
def ofSlot : List (ClassElement × Nat) → List ElementGroup
  | a :: b :: rest =>
    if a.1.opposes b.1 then pair a b :: ofSlot rest else alone a :: ofSlot (b :: rest)
  | [a] => [alone a]
  | [] => []

/-- The groups have a clash, and no other comes to its end before this one. -/
structure FirstClash (groups : List ElementGroup) (first second : ClassElement × Nat) : Prop where
  mem : pair first second ∈ groups
  clashes : (pair first second).Clashes
  least : ∀ first' second', pair first' second' ∈ groups → (pair first' second').Clashes →
    second.2 ≤ second'.2

end ElementGroup

open ElementGroup (ofSlot FirstClash)

/-- Groups of a body: in every slot those that it forms by itself, and all by their first elements. -/
structure Grouping (elements : List ClassElement) (groups : List ElementGroup) : Prop where
  slot : ∀ name isStatic, groups.filter (·.inSlot name isStatic) =
    ofSlot (elements.zipIdx.filter (·.1.inSlot name isStatic))
  ordered : groups.Pairwise (·.position < ·.position)

def UnitShape.kinds : UnitShape → List ElementKind
  | method body => [.method body]
  | field initializer => [.field initializer]
  | accessor getter setter =>
    (getter.map ElementKind.getter).toList ++ (setter.map ElementKind.setter).toList

def ClassElement.body (e : ClassElement) : String × Bool × ElementKind := (e.name, e.isStatic, e.kind)

def ClassElement.attached (e : ClassElement) : List (String × Bool × DecoratorExpr) :=
  e.decorators.map (e.name, e.isStatic, ·)

def ElementUnit.bodies (u : ElementUnit) : List (String × Bool × ElementKind) :=
  u.shape.kinds.map (u.name, u.isStatic, ·)

def ElementUnit.attached (u : ElementUnit) : List (String × Bool × DecoratorExpr) :=
  u.decorators.map (u.name, u.isStatic, ·)

namespace ElementGroup

variable {l l' : List (ClassElement × Nat)} {gs : List ElementGroup} {g : ElementGroup}
  {a b x : ClassElement × Nat}

theorem flatMap_members_ofSlot (l : List (ClassElement × Nat)) : (ofSlot l).flatMap members = l := by
  fun_induction ofSlot l with
  | case1 a b rest _ ih => rw [List.flatMap_cons, ih, members]; rfl
  | case2 a b rest _ ih => rw [List.flatMap_cons, ih, members]; rfl
  | case3 a => rfl
  | case4 => rfl

theorem mem_of_ofSlot (hg : g ∈ ofSlot l) (hx : x ∈ g.members) : x ∈ l := by
  rw [← flatMap_members_ofSlot l]
  exact List.mem_flatMap.mpr ⟨g, hg, hx⟩

theorem first_mem_members (g : ElementGroup) : g.first ∈ g.members := by
  cases g <;> exact List.mem_cons_self ..

theorem opposes_of_mem_ofSlot (h : pair a b ∈ ofSlot l) : a.1.opposes b.1 = true := by
  fun_induction ofSlot l with
  | case1 c d rest hopposes ih =>
    rcases List.mem_cons.mp h with h | h
    · obtain ⟨rfl, rfl⟩ := pair.inj h
      exact hopposes
    · exact ih h
  | case2 c d rest _ ih =>
    rcases List.mem_cons.mp h with h | h
    · exact nomatch h
    · exact ih h
  | case3 c => exact nomatch List.mem_singleton.mp h
  | case4 => exact nomatch h

theorem ofSlot_concat_pair (h : ofSlot l = gs ++ [alone a]) (hopposes : a.1.opposes x.1 = true) :
    ofSlot (l ++ [x]) = gs ++ [pair a x] := by
  fun_induction ofSlot l generalizing gs with
  | case1 c d rest hcd ih =>
    obtain ⟨gs, rfl, hrest⟩ : ∃ gs', gs = pair c d :: gs' ∧ ofSlot rest = gs' ++ [alone a] := by
      cases gs with
      | nil => simp at h
      | cons g gs => exact ⟨gs, by simpa [eq_comm] using h⟩
    rw [List.cons_append, List.cons_append, ofSlot, if_pos hcd, ih hrest, List.cons_append]
  | case2 c d rest hcd ih =>
    obtain ⟨gs, rfl, hrest⟩ : ∃ gs', gs = alone c :: gs' ∧ ofSlot (d :: rest) = gs' ++ [alone a] := by
      cases gs with
      | nil =>
        have hmembers := flatMap_members_ofSlot (d :: rest)
        simp_all
      | cons g gs => exact ⟨gs, by simpa [eq_comm] using h⟩
    rw [List.cons_append, List.cons_append, ofSlot, if_neg hcd, ← List.cons_append, ih hrest,
      List.cons_append]
  | case3 c =>
    obtain ⟨rfl, rfl⟩ : gs = [] ∧ c = a := by
      cases gs <;> simp_all
    rw [List.singleton_append, ofSlot, if_pos hopposes]
    rfl
  | case4 => simp at h

theorem ofSlot_concat_alone
    (h : ∀ gs a, ofSlot l = gs ++ [alone a] → a.1.opposes x.1 = false) :
    ofSlot (l ++ [x]) = ofSlot l ++ [alone x] := by
  fun_induction ofSlot l with
  | case1 c d rest hcd ih =>
    have hrest := ih fun gs a hgs => h (pair c d :: gs) a (by rw [hgs, List.cons_append])
    rw [List.cons_append, List.cons_append, ofSlot, if_pos hcd, hrest, List.cons_append]
  | case2 c d rest hcd ih =>
    have hrest := ih fun gs a hgs => h (alone c :: gs) a (by rw [hgs, List.cons_append])
    rw [List.cons_append, List.cons_append, ofSlot, if_neg hcd, ← List.cons_append, hrest,
      List.cons_append]
  | case3 c =>
    have hc : ¬ c.1.opposes x.1 = true := by simp [h [] c rfl]
    rw [List.singleton_append, ofSlot, if_neg hc]
    rfl
  | case4 => rfl

def bare : ElementGroup → ElementGroup
  | alone a => alone (a.1, 0)
  | pair a b => pair (a.1, 0) (b.1, 0)

theorem unit_bare (g : ElementGroup) : g.bare.unit = g.unit := by
  cases g <;> rfl

theorem clashes_bare (g : ElementGroup) : g.bare.Clashes ↔ g.Clashes := by
  cases g <;> exact Iff.rfl

theorem map_bare_ofSlot (h : l.map Prod.fst = l'.map Prod.fst) :
    (ofSlot l).map bare = (ofSlot l').map bare := by
  fun_induction ofSlot l generalizing l' with
  | case1 a b rest hab ih =>
    obtain ⟨a', tail, rfl, ha, htail⟩ := List.map_eq_cons_iff.mp h.symm
    obtain ⟨b', rest', rfl, hb, hrest⟩ := List.map_eq_cons_iff.mp htail
    rw [ofSlot, ha, hb, if_pos hab, List.map_cons, List.map_cons, ih hrest.symm]
    simp only [bare, ha, hb]
  | case2 a b rest hab ih =>
    obtain ⟨a', tail, rfl, ha, htail⟩ := List.map_eq_cons_iff.mp h.symm
    obtain ⟨b', rest', rfl, hb, hrest⟩ := List.map_eq_cons_iff.mp htail
    rw [ofSlot, ha, hb, if_neg hab, List.map_cons, List.map_cons, ih htail.symm]
    simp only [bare, ha]
  | case3 a =>
    obtain ⟨a', tail, rfl, ha, htail⟩ := List.map_eq_cons_iff.mp h.symm
    obtain rfl := List.map_eq_nil_iff.mp htail
    simp only [ofSlot, List.map_cons, bare, ha, List.map_nil]
  | case4 =>
    obtain rfl := List.map_eq_nil_iff.mp h.symm
    rfl

@[simp] theorem inSlot_alone (name : String) (isStatic : Bool) (a : ClassElement × Nat) :
    (alone a).inSlot name isStatic = a.1.inSlot name isStatic := rfl

@[simp] theorem inSlot_pair (name : String) (isStatic : Bool) (a b : ClassElement × Nat) :
    (pair a b).inSlot name isStatic = a.1.inSlot name isStatic := rfl

theorem unit_inSlot (g : ElementGroup) (name : String) (isStatic : Bool) :
    g.unit.inSlot name isStatic = g.inSlot name isStatic := by
  cases g <;> rfl

theorem completed?_alone (a : ClassElement × Nat) (e : ClassElement) :
    (alone a).unit.completed? e = if a.1.opposes e then some (a.1.paired e) else none := by
  rw [unit, ElementUnit.completed?, ClassElement.opposes, ClassElement.paired, ClassElement.unit]
  cases hk : a.1.kind <;> cases he : e.kind <;> rfl

theorem completed?_pair (h : a.1.opposes b.1 = true) (e : ClassElement) :
    (pair a b).unit.completed? e = none := by
  rw [ClassElement.opposes] at h
  rw [unit, ElementUnit.completed?, ClassElement.paired]
  cases hk : a.1.kind <;> cases hb : b.1.kind <;> simp_all

end ElementGroup

namespace Grouping

open ElementGroup ElementUnit

variable {elements : List ClassElement} {groups other before after gs : List ElementGroup}
  {g : ElementGroup} {a b : ClassElement × Nat} {e : ClassElement}

theorem mem_iff (h : Grouping elements groups) (g : ElementGroup) : g ∈ groups ↔
    g ∈ ofSlot (elements.zipIdx.filter (·.1.inSlot g.first.1.name g.first.1.isStatic)) := by
  have hself : g.inSlot g.first.1.name g.first.1.isStatic = true :=
    ClassElement.inSlot_iff.mpr ⟨rfl, rfl⟩
  rw [← h.slot, List.mem_filter, and_iff_left hself]

theorem mem_members (h : Grouping elements groups) (hg : g ∈ groups) {x : ClassElement × Nat}
    (hx : x ∈ g.members) :
    x ∈ elements.zipIdx ∧ x.1.name = g.first.1.name ∧ x.1.isStatic = g.first.1.isStatic := by
  have hmem := mem_of_ofSlot ((h.mem_iff g).mp hg) hx
  rw [List.mem_filter, ClassElement.inSlot_iff] at hmem
  exact hmem

theorem opposes (h : Grouping elements groups) (hg : pair a b ∈ groups) : a.1.opposes b.1 = true :=
  opposes_of_mem_ofSlot ((h.mem_iff _).mp hg)

theorem lt_length (h : Grouping elements groups) (hg : g ∈ groups) {x : ClassElement × Nat}
    (hx : x ∈ g.members) : x.2 < elements.length := by
  simpa using List.snd_lt_of_mem_zipIdx (h.mem_members hg hx).1

theorem unique (h : Grouping elements groups) (h' : Grouping elements other) : other = groups := by
  have hirrefl : Std.Irrefl fun g g' : ElementGroup => g.position < g'.position :=
    ⟨fun g => Nat.lt_irrefl g.position⟩
  have hantisymm : Std.Antisymm fun g g' : ElementGroup => g.position < g'.position :=
    ⟨fun g g' hlt hgt => absurd hgt (Nat.lt_asymm hlt)⟩
  refine h'.ordered.eq_of_mem_iff h.ordered fun g => ?_
  rw [h.mem_iff, h'.mem_iff]

theorem nil : Grouping [] [] := ⟨fun _ _ => rfl, List.Pairwise.nil⟩

theorem zipIdx_concat (elements : List ClassElement) (e : ClassElement) :
    (elements ++ [e]).zipIdx = elements.zipIdx ++ [(e, elements.length)] := by
  rw [List.zipIdx_append, Nat.zero_add]
  rfl

def slotOf (elements : List ClassElement) (e : ClassElement) : List (ClassElement × Nat) :=
  elements.zipIdx.filter (·.1.inSlot e.name e.isStatic)

theorem concat_alone (h : Grouping elements groups)
    (hlone : ∀ gs a, ofSlot (slotOf elements e) = gs ++ [alone a] → a.1.opposes e = false) :
    Grouping (elements ++ [e]) (groups ++ [alone (e, elements.length)]) := by
  refine ⟨fun name isStatic => ?_, ?_⟩
  · rw [List.filter_append, zipIdx_concat, List.filter_append, h.slot]
    cases hslot : e.inSlot name isStatic with
    | false => simp [hslot]
    | true =>
      obtain ⟨rfl, rfl⟩ := ClassElement.inSlot_iff.mp hslot
      have hnext := ofSlot_concat_alone (x := (e, elements.length)) hlone
      rw [slotOf] at hnext
      simp [hslot, hnext]
  · refine List.pairwise_append.mpr ⟨h.ordered, List.pairwise_singleton _ _, fun g hg x hx => ?_⟩
    obtain rfl := List.mem_singleton.mp hx
    exact h.lt_length hg (first_mem_members g)

theorem concat_pair (h : Grouping elements (before ++ alone a :: after))
    (hslot : a.1.inSlot e.name e.isStatic = true)
    (hafter : ∀ g ∈ after, g.inSlot e.name e.isStatic = false) (hopposes : a.1.opposes e = true) :
    Grouping (elements ++ [e]) (before ++ pair a (e, elements.length) :: after) := by
  refine ⟨fun name isStatic => ?_, ?_⟩
  · have hold := h.slot name isStatic
    have hsame : a.1.inSlot name isStatic = e.inSlot name isStatic := by
      obtain ⟨hname, hstatic⟩ := ClassElement.inSlot_iff.mp hslot
      rw [ClassElement.inSlot, hname, hstatic, ClassElement.inSlot]
    rw [zipIdx_concat, List.filter_append]
    rw [List.filter_append, List.filter_cons] at hold ⊢
    cases he : e.inSlot name isStatic with
    | false => simpa [hsame, he] using hold
    | true =>
      obtain ⟨rfl, rfl⟩ := ClassElement.inSlot_iff.mp he
      have hnone : after.filter (·.inSlot e.name e.isStatic) = [] := by simpa using hafter
      have hlatest : ofSlot (slotOf elements e) =
          before.filter (·.inSlot e.name e.isStatic) ++ [alone a] := by
        simpa [slotOf, hslot, hnone] using hold.symm
      have hnext := ofSlot_concat_pair (x := (e, elements.length)) hlatest hopposes
      rw [slotOf] at hnext
      simp [hslot, hnone, he, hnext]
  · have hpositions : (before ++ pair a (e, elements.length) :: after).map position =
        (before ++ alone a :: after).map position := by
      simp [position, first]
    rw [← List.pairwise_map (f := position) (R := (· < ·)), hpositions, List.pairwise_map]
    exact h.ordered

theorem next (h : Grouping elements groups) (e : ClassElement) :
    (∀ gs a, ofSlot (slotOf elements e) = gs ++ [alone a] → a.1.opposes e = false) ∨
    ∃ before a after, groups = before ++ alone a :: after ∧ a.1.inSlot e.name e.isStatic = true ∧
      (∀ g ∈ after, g.inSlot e.name e.isStatic = false) ∧ a.1.opposes e = true := by
  by_cases hpair : ∃ gs a, ofSlot (slotOf elements e) = gs ++ [alone a] ∧ a.1.opposes e = true
  · obtain ⟨gs, a, hgs, hopposes⟩ := hpair
    have hslot := h.slot e.name e.isStatic
    rw [← slotOf, hgs, List.filter_eq_append_iff] at hslot
    obtain ⟨before, rest, rfl, -, hrest⟩ := hslot
    obtain ⟨between, after, rfl, -, ha, hafter⟩ := List.filter_eq_cons_iff.mp hrest
    refine .inr ⟨before ++ between, a, after, (List.append_assoc ..).symm, ha, ?_, hopposes⟩
    simpa using hafter
  · refine .inl fun gs a hgs => Bool.of_not_eq_true fun hopposes => hpair ⟨gs, a, hgs, hopposes⟩

theorem find?_unit (h : Grouping elements groups) (e : ClassElement) :
    (groups.map unit).reverse.find? (·.sameSlot e) =
      (ofSlot (slotOf elements e)).getLast?.map unit := by
  have hslots : (fun u : ElementUnit => u.sameSlot e) ∘ unit = (·.inSlot e.name e.isStatic) :=
    funext fun g => g.unit_inSlot e.name e.isStatic
  rw [← List.map_reverse, List.find?_map, hslots, ← List.head?_filter, List.filter_reverse, h.slot,
    List.head?_reverse, slotOf]

theorem add_alone (h : Grouping elements groups)
    (hlone : ∀ gs a, ofSlot (slotOf elements e) = gs ++ [alone a] → a.1.opposes e = false) (n : Nat) :
    add (groups.map unit).reverse e = .ok ((groups ++ [alone (e, n)]).map unit).reverse := by
  have hnone : add.completeLatest e (groups.map unit).reverse = none := by
    refine completeLatest_of_find? fun u hu => ?_
    rw [h.find?_unit, Option.map_eq_some_iff] at hu
    obtain ⟨g, hg, rfl⟩ := hu
    obtain ⟨gs, hgs⟩ := List.getLast?_eq_some_iff.mp hg
    cases g with
    | alone a => rw [completed?_alone, hlone gs a hgs]; rfl
    | pair a b =>
      have hab : pair a b ∈ ofSlot (slotOf elements e) := List.mem_of_getLast? hg
      exact completed?_pair (opposes_of_mem_ofSlot hab) e
  rw [add, hnone, List.map_append, List.reverse_append]
  rfl

theorem add_pair (before : List ElementGroup) (hslot : a.1.inSlot e.name e.isStatic = true)
    (hafter : ∀ g ∈ after, g.inSlot e.name e.isStatic = false) (hopposes : a.1.opposes e = true)
    (n : Nat) : add ((before ++ alone a :: after).map unit).reverse e =
      if a.1.decorators ≠ [] ∧ e.decorators ≠ [] then .error (.bothHalvesDecorated e.name)
      else .ok ((before ++ pair a (e, n) :: after).map unit).reverse := by
  have hlater : ∀ u ∈ (after.map unit).reverse, u.sameSlot e = false := by
    intro u hu
    obtain ⟨g, hg, rfl⟩ := List.mem_map.mp (List.mem_reverse.mp hu)
    exact (g.unit_inSlot e.name e.isStatic).trans (hafter g hg)
  have hsame : (alone a).unit.sameSlot e = true := hslot
  have hlist : ∀ g, ((before ++ g :: after).map unit).reverse =
      (after.map unit).reverse ++ g.unit :: (before.map unit).reverse := by simp
  rw [add, hlist, hlist, completeLatest_append hlater hsame, completed?_alone, if_pos hopposes,
    Option.map_some, complete]
  by_cases he : e.decorators = []
  · by_cases ha : a.1.decorators = [] <;> simp [he, ha, unit, Except.map, ClassElement.unit]
  · by_cases ha : a.1.decorators = [] <;> simp [he, ha, unit, Except.map, ClassElement.unit]

end Grouping

namespace ElementGroup.FirstClash

variable {elements : List ClassElement} {groups before after : List ElementGroup}
  {a b c x first second : ClassElement × Nat}

theorem mem_pair_iff : pair a b ∈ before ++ pair c x :: after ↔
    pair a b ∈ before ++ alone c :: after ∨ (a = c ∧ b = x) := by
  simp only [List.mem_append, List.mem_cons, pair.injEq, reduceCtorEq, false_or]
  tauto

theorem concat_alone (h : FirstClash groups a b) (x : ClassElement × Nat) :
    FirstClash (groups ++ [alone x]) a b := by
  refine ⟨List.mem_append_left _ h.mem, h.clashes, fun first second hmem => h.least first second ?_⟩
  simpa using hmem

theorem concat_pair (h : FirstClash (before ++ alone c :: after) a b) (hx : b.2 ≤ x.2) :
    FirstClash (before ++ pair c x :: after) a b := by
  refine ⟨mem_pair_iff.mpr (.inl h.mem), h.clashes, fun first second hmem hclash => ?_⟩
  rcases mem_pair_iff.mp hmem with hold | ⟨rfl, rfl⟩
  · exact h.least first second hold hclash
  · exact hx

theorem new (hnone : ∀ g ∈ before ++ alone c :: after, ¬ g.Clashes)
    (hclash : (pair c x).Clashes) : FirstClash (before ++ pair c x :: after) c x := by
  refine ⟨by simp, hclash, fun first second hmem hother => ?_⟩
  rcases mem_pair_iff.mp hmem with hold | ⟨rfl, rfl⟩
  · exact absurd hother (hnone _ hold)
  · exact Nat.le_refl _

theorem second_eq (hgroups : Grouping elements groups) (h : FirstClash groups a b)
    (h' : FirstClash groups first second) : second = b := by
  have hposition : second.2 = b.2 :=
    Nat.le_antisymm (h'.least a b h.mem h.clashes) (h.least first second h'.mem h'.clashes)
  have hb := (hgroups.mem_members h.mem (List.mem_cons_of_mem _ (List.mem_singleton_self b))).1
  have hs := (hgroups.mem_members h'.mem (List.mem_cons_of_mem _ (List.mem_singleton_self second))).1
  rw [List.mem_zipIdx_iff_getElem?] at hb hs
  rw [hposition, hb] at hs
  exact (Prod.ext (Option.some.inj hs) hposition.symm).symm

end ElementGroup.FirstClash

namespace ElementUnit

open ElementGroup Grouping

theorem foldlM_concat (elements : List ClassElement) (e : ClassElement) :
    (elements ++ [e]).foldlM add [] = elements.foldlM add [] >>= (add · e) := by
  simp only [List.foldlM_append, List.foldlM_cons, List.foldlM_nil, bind_pure]

theorem foldlM_add (elements : List ClassElement) : ∃ groups, Grouping elements groups ∧
    (groups.flatMap members).Perm elements.zipIdx ∧
    ((∀ g ∈ groups, ¬ g.Clashes) ∧ elements.foldlM add [] = .ok (groups.map unit).reverse ∨
      ∃ first second, FirstClash groups first second ∧
        elements.foldlM add [] = .error (.bothHalvesDecorated second.1.name)) := by
  induction elements using List.reverseRecOn with
  | nil => exact ⟨[], .nil, List.Perm.refl _, .inl ⟨List.forall_mem_nil _, rfl⟩⟩
  | append_singleton elements e ih =>
    obtain ⟨groups, hgroups, hmembers, hfold⟩ := ih
    rw [foldlM_concat, Grouping.zipIdx_concat]
    rcases hgroups.next e with hlone | ⟨before, a, after, rfl, hslot, hafter, hopposes⟩
    · refine ⟨_, hgroups.concat_alone hlone, ?_, ?_⟩
      · rw [List.flatMap_append]
        exact hmembers.append_right _
      · rcases hfold with ⟨hnone, hfold⟩ | ⟨first, second, hclash, hfold⟩
        · refine .inl ⟨?_, ?_⟩
          · rw [List.forall_mem_append, List.forall_mem_singleton]
            exact ⟨hnone, not_false⟩
          · rw [hfold]
            exact hgroups.add_alone hlone elements.length
        · exact .inr ⟨first, second, hclash.concat_alone _, by rw [hfold]; rfl⟩
    · refine ⟨_, hgroups.concat_pair hslot hafter hopposes, ?_, ?_⟩
      · simp only [List.flatMap_append, List.flatMap_cons] at hmembers ⊢
        refine List.Perm.trans ?_ (hmembers.append_right _)
        rw [List.append_assoc]
        refine List.Perm.append_left _ ?_
        exact List.Perm.cons a (List.perm_append_singleton _ _).symm
      · have hadd := add_pair before hslot hafter hopposes elements.length
        rcases hfold with ⟨hnone, hfold⟩ | ⟨first, second, hclash, hfold⟩
        · rw [hfold]
          by_cases hboth : a.1.decorators ≠ [] ∧ e.decorators ≠ []
          · rw [if_pos hboth] at hadd
            exact .inr ⟨a, _, FirstClash.new hnone hboth, hadd⟩
          · rw [if_neg hboth] at hadd
            refine .inl ⟨?_, hadd⟩
            simp only [List.forall_mem_append, List.forall_mem_cons] at hnone ⊢
            exact ⟨hnone.1, hboth, hnone.2.2⟩
        · have hlt : second.2 < elements.length :=
            hgroups.lt_length hclash.mem (List.mem_cons_of_mem _ (List.mem_singleton_self second))
          exact .inr ⟨first, second, hclash.concat_pair hlt.le, by rw [hfold]; rfl⟩

end ElementUnit

namespace ElementGroup

variable {first second : ClassElement × Nat} {g : ElementGroup}

theorem kinds_paired {a b : ClassElement} (h : a.opposes b = true) :
    (a.paired b).kinds.Perm [a.kind, b.kind] := by
  rw [ClassElement.opposes] at h
  rw [ClassElement.paired]
  cases ha : a.kind <;> cases hb : b.kind <;> simp [ha, hb] at h
  · exact List.Perm.refl _
  · exact List.Perm.swap _ _ _

theorem bodies_unit (hopposes : ∀ a b, g = pair a b → a.1.opposes b.1 = true)
    (hslot : ∀ x ∈ g.members, x.1.name = g.first.1.name ∧ x.1.isStatic = g.first.1.isStatic) :
    g.unit.bodies.Perm (g.members.map (·.1.body)) := by
  cases g with
  | alone e =>
    rw [unit, ElementUnit.bodies, ClassElement.unit]
    cases hk : e.1.kind <;> simp [UnitShape.kinds, members, ClassElement.body, hk]
  | pair a b =>
    obtain ⟨hname, hstatic⟩ := hslot b (List.mem_cons_of_mem _ (List.mem_singleton_self b))
    have hbodies : (pair a b).members.map (·.1.body) =
        [a.1.kind, b.1.kind].map (a.1.name, a.1.isStatic, ·) := by
      rw [first] at hname hstatic
      simp [members, ClassElement.body, hname, hstatic]
    rw [hbodies]
    exact (kinds_paired (hopposes a b rfl)).map _

theorem attached_unit (hclash : ¬ g.Clashes)
    (hslot : ∀ x ∈ g.members, x.1.name = g.first.1.name ∧ x.1.isStatic = g.first.1.isStatic) :
    g.unit.attached = g.members.flatMap (·.1.attached) := by
  cases g with
  | alone e => simp [members, unit, ElementUnit.attached, ClassElement.attached, ClassElement.unit]
  | pair a b =>
    obtain ⟨hname, hstatic⟩ := hslot b (List.mem_cons_of_mem _ (List.mem_singleton_self b))
    rw [first] at hname hstatic
    rw [Clashes, not_and_or, not_not, not_not] at hclash
    rcases hclash with ha | hb
    · simp [members, unit, ElementUnit.attached, ClassElement.attached, ClassElement.unit, ha, hname,
        hstatic]
    · by_cases ha : a.1.decorators = [] <;>
        simp [members, unit, ElementUnit.attached, ClassElement.attached, ClassElement.unit, ha, hb]

end ElementGroup

namespace ElementUnit

open ElementGroup

theorem bodies_perm {elements : List ClassElement} {groups : List ElementGroup}
    (h : Grouping elements groups) (hmembers : (groups.flatMap members).Perm elements.zipIdx) :
    ((groups.map unit).flatMap bodies).Perm (elements.map ClassElement.body) := by
  have hunits : ((groups.map unit).flatMap bodies).Perm
      (groups.flatMap fun g => g.members.map (·.1.body)) := by
    rw [List.flatMap_map]
    refine List.Perm.flatMap_left groups fun g hg => bodies_unit ?_ fun x hx => ?_
    · rintro a b rfl
      exact h.opposes hg
    · exact (h.mem_members hg hx).2
  have helements : (elements.zipIdx.map (·.1.body)) = elements.map ClassElement.body := by
    rw [← Function.comp_def ClassElement.body Prod.fst, ← List.map_map, List.zipIdx_map_fst]
  rw [← helements]
  rw [← List.map_flatMap] at hunits
  exact hunits.trans (hmembers.map _)

theorem attached_perm {elements : List ClassElement} {groups : List ElementGroup}
    (h : Grouping elements groups) (hmembers : (groups.flatMap members).Perm elements.zipIdx)
    (hclash : ∀ g ∈ groups, ¬ g.Clashes) :
    ((groups.map unit).flatMap attached).Perm (elements.flatMap ClassElement.attached) := by
  have hunits : (groups.map unit).flatMap attached =
      (groups.flatMap members).flatMap (·.1.attached) := by
    rw [List.flatMap_map, List.flatMap_assoc]
    refine List.flatMap_congr fun g hg => attached_unit (hclash g hg) fun x hx => ?_
    exact (h.mem_members hg hx).2
  have helements : elements.zipIdx.flatMap (·.1.attached) = elements.flatMap ClassElement.attached := by
    conv_rhs => rw [← List.zipIdx_map_fst 0 elements, List.flatMap_map]
  rw [hunits, ← helements]
  exact hmembers.flatMap_right _

theorem exists_grouping (elements : List ClassElement) : ∃ groups, Grouping elements groups ∧
    (groups.flatMap members).Perm elements.zipIdx ∧
    ((∀ g ∈ groups, ¬ g.Clashes) ∧ ofElements elements = .ok (groups.map unit) ∨
      ∃ first second, FirstClash groups first second ∧
        ofElements elements = .error (.bothHalvesDecorated second.1.name)) := by
  obtain ⟨groups, hgroups, hmembers, hfold⟩ := foldlM_add elements
  refine ⟨groups, hgroups, hmembers, ?_⟩
  rcases hfold with ⟨hnone, hfold⟩ | ⟨first, second, hclash, hfold⟩
  · left
    rw [ofElements_eq, hfold, Except.map, List.reverse_reverse]
    exact ⟨hnone, rfl⟩
  · right
    rw [ofElements_eq, hfold, Except.map]
    exact ⟨first, second, hclash, rfl⟩

/-- The units of a body are those of its groups, and a body has units unless a group clashes. -/
theorem ofElements_grouping (elements : List ClassElement) :
    ∃ groups, Grouping elements groups ∧ (∀ other, Grouping elements other → other = groups) ∧
      (groups.flatMap members).Perm elements.zipIdx ∧
      (∀ fault, ofElements elements = .error fault ↔ ∃ first second,
        FirstClash groups first second ∧ fault = .bothHalvesDecorated second.1.name) ∧
      (∀ units, ofElements elements = .ok units ↔
        (∀ g ∈ groups, ¬ g.Clashes) ∧ units = groups.map unit) ∧
      ∀ units, ofElements elements = .ok units →
        (units.flatMap bodies).Perm (elements.map ClassElement.body) ∧
        (units.flatMap attached).Perm (elements.flatMap ClassElement.attached) := by
  obtain ⟨groups, hgroups, hmembers, hmade⟩ := exists_grouping elements
  have hunits : ∀ units, ofElements elements = .ok units ↔
      (∀ g ∈ groups, ¬ g.Clashes) ∧ units = groups.map unit := by
    intro units
    rcases hmade with ⟨hnone, hmade⟩ | ⟨first, second, hclash, hmade⟩
    · rw [hmade, Except.ok.injEq, and_iff_right hnone, eq_comm]
    · rw [hmade]
      exact ⟨fun h => (nomatch h), fun h => absurd hclash.clashes (h.1 _ hclash.mem)⟩
  refine ⟨groups, hgroups, fun other => hgroups.unique, hmembers, fun fault => ?_, hunits, ?_⟩
  · rcases hmade with ⟨hnone, hmade⟩ | ⟨first, second, hclash, hmade⟩
    · rw [hmade]
      exact ⟨fun h => (nomatch h), fun ⟨_, _, h, _⟩ => absurd h.clashes (hnone _ h.mem)⟩
    · rw [hmade, Except.error.injEq]
      constructor
      · rintro rfl
        exact ⟨first, second, hclash, rfl⟩
      · rintro ⟨first', second', h, rfl⟩
        rw [hclash.second_eq hgroups h]
  · intro units h
    obtain ⟨hnone, rfl⟩ := (hunits units).mp h
    exact ⟨bodies_perm hgroups hmembers, attached_perm hgroups hmembers hnone⟩

end ElementUnit
end Decoration
