import Decoration.Proofs.Planning
import Mathlib.Data.List.Induction

/-! Getters and setters of one slot are paired from left to right. A half completes the latest unit of
its slot if that is a lone half of the other kind, and stands for itself otherwise. -/

namespace Decoration

theorem Except.map_eq_ok {ε α β : Type} {x : Except ε α} {f : α → β} {b : β} :
    x.map f = .ok b ↔ ∃ a, x = .ok a ∧ f a = b := by
  cases x with
  | error e => exact ⟨fun h => (nomatch h), fun ⟨_, h, _⟩ => (nomatch h)⟩
  | ok a => exact ⟨fun h => ⟨a, rfl, Except.ok.inj h⟩, by rintro ⟨_, ⟨⟩, rfl⟩; rfl⟩

theorem Except.bind_eq_ok {ε α β : Type} {x : Except ε α} {f : α → Except ε β} {b : β} :
    x >>= f = .ok b ↔ ∃ a, x = .ok a ∧ f a = .ok b := by
  cases x with
  | error e => exact ⟨fun h => (nomatch h), fun ⟨_, h, _⟩ => (nomatch h)⟩
  | ok a => exact ⟨fun h => ⟨a, rfl, h⟩, by rintro ⟨_, ⟨⟩, h⟩; exact h⟩

theorem eraseDups_concat (l : List String) (key : String) :
    (l ++ [key]).eraseDups = l.eraseDups ++ if key ∈ l then [] else [key] := by
  rw [List.eraseDups_append]
  by_cases h : key ∈ l
  · simp [List.removeAll, h]
  · simp [List.removeAll, h, List.eraseDups_cons]

theorem eraseDups_filter (p : String → Bool) (l : List String) :
    (l.filter p).eraseDups = l.eraseDups.filter p := by
  induction l using List.reverseRecOn with
  | nil => rfl
  | append_singleton l key ih =>
    rw [List.filter_append, eraseDups_concat, List.filter_append, ← ih]
    cases hp : p key with
    | false =>
      rw [List.filter_cons_of_neg (by simp [hp]), List.filter_nil, List.append_nil]
      split <;> simp [hp]
    | true =>
      rw [List.filter_cons_of_pos hp, List.filter_nil, eraseDups_concat]
      by_cases hmem : key ∈ l <;> simp [hmem, hp]

theorem eraseDups_cons_filter (key : String) (l : List String) :
    (key :: l).eraseDups = key :: l.eraseDups.filter (· ≠ key) := by
  rw [List.eraseDups_cons, ← eraseDups_filter]
  congr 3
  funext other
  by_cases h : other = key <;> simp [h]

namespace ClassElement

def inSlot (name : String) (isStatic : Bool) (e : ClassElement) : Bool :=
  e.name == name && e.isStatic == isStatic

def names (isStatic : Bool) (elements : List ClassElement) : List String :=
  (elements.filter (·.isStatic == isStatic)).map (·.name)

def opposes (a b : ClassElement) : Bool :=
  match a.kind, b.kind with
  | .getter _, .setter _ | .setter _, .getter _ => true
  | _, _ => false

/-- The neighbour that the latest element of a slot makes a pair with: they oppose each other, and the
neighbour is not the second of a pair already. The elements are listed latest first. -/
def partner? : List ClassElement → Option ClassElement
  | last :: previous :: rest =>
    if last.opposes previous ∧ partner? (previous :: rest) = none then some previous else none
  | _ => none

def paired (a b : ClassElement) : UnitShape :=
  match a.kind, b.kind with
  | .getter getter, .setter setter | .setter setter, .getter getter =>
    .accessor (some getter) (some setter)
  | _, _ => a.unit.shape

/-- What the latest element of a slot makes of it, with its partner if it has one. -/
def latestShape : List ClassElement → Option UnitShape
  | [] => none
  | last :: earlier =>
    some ((partner? (last :: earlier)).elim last.unit.shape last.paired)

theorem inSlot_iff {name : String} {isStatic : Bool} {e : ClassElement} :
    e.inSlot name isStatic = true ↔ e.name = name ∧ e.isStatic = isStatic := by
  simp [inSlot]

theorem mem_names {isStatic : Bool} {name : String} {elements : List ClassElement} :
    name ∈ names isStatic elements ↔ ∃ e ∈ elements, e.inSlot name isStatic = true := by
  simp only [names, List.mem_map, List.mem_filter, inSlot, Bool.and_eq_true, beq_iff_eq]
  exact ⟨fun ⟨e, ⟨he, hs⟩, hn⟩ => ⟨e, he, hn, hs⟩, fun ⟨e, he, hn, hs⟩ => ⟨e, ⟨he, hs⟩, hn⟩⟩

theorem names_concat (isStatic : Bool) (elements : List ClassElement) (e : ClassElement) :
    names isStatic (elements ++ [e]) =
      names isStatic elements ++ if e.isStatic = isStatic then [e.name] else [] := by
  by_cases h : e.isStatic = isStatic <;> simp [names, h]

end ClassElement

namespace ElementUnit

open ClassElement (partner? latestShape)

variable {u : ElementUnit} {e : ClassElement} {units units' : List ElementUnit}

theorem complete_eq_ok {shape : UnitShape} {u' : ElementUnit} (h : u.complete e shape = .ok u') :
    (u.decorators = [] ∨ e.decorators = []) ∧
      u' = { u with shape, decorators := u.decorators ++ e.decorators } := by
  unfold complete at h
  split at h
  · rename_i he
    rw [List.isEmpty_iff] at he
    obtain rfl := Except.ok.inj h
    exact ⟨.inr he, by rw [he, List.append_nil]⟩
  · split at h
    · rename_i hu
      rw [List.isEmpty_iff] at hu
      obtain rfl := Except.ok.inj h
      exact ⟨.inl hu, by rw [hu, List.nil_append]⟩
    · exact nomatch h

theorem completeLatest_eq_some (h : add.completeLatest e units = some (.ok units')) :
    ∃ before u after shape, units = before ++ u :: after ∧
      (∀ x ∈ before, x.sameSlot e = false) ∧ u.sameSlot e = true ∧ u.completed? e = some shape ∧
      (u.decorators = [] ∨ e.decorators = []) ∧
      units' = before ++ { u with shape, decorators := u.decorators ++ e.decorators } :: after := by
  induction units generalizing units' with
  | nil => exact nomatch h
  | cons v rest ih =>
    rw [add.completeLatest] at h
    split at h
    · rename_i hslot
      obtain ⟨shape, hshape, hdone⟩ := Option.map_eq_some_iff.mp h
      obtain ⟨u', hu', rfl⟩ := Except.map_eq_ok.mp hdone
      obtain ⟨hds, rfl⟩ := complete_eq_ok hu'
      exact ⟨[], v, rest, shape, rfl, by simp, hslot, hshape, hds, rfl⟩
    · rename_i hslot
      obtain ⟨r, hr, hdone⟩ := Option.map_eq_some_iff.mp h
      obtain ⟨rest', rfl, rfl⟩ := Except.map_eq_ok.mp hdone
      obtain ⟨before, u, after, shape, rfl, hbefore, hu, hshape, hds, rfl⟩ := ih hr
      refine ⟨v :: before, u, after, shape, rfl, ?_, hu, hshape, hds, rfl⟩
      exact List.forall_mem_cons.mpr ⟨Bool.of_not_eq_true hslot, hbefore⟩

theorem completeLatest_eq_none (h : add.completeLatest e units = none) :
    ∀ u, units.find? (·.sameSlot e) = some u → u.completed? e = none := by
  induction units with
  | nil => exact fun u hu => nomatch hu
  | cons v rest ih =>
    intro u hu
    rw [add.completeLatest] at h
    rw [List.find?_cons] at hu
    cases hslot : v.sameSlot e with
    | true =>
      rw [hslot] at h hu
      cases hu
      exact Option.map_eq_none_iff.mp h
    | false =>
      rw [hslot] at h hu
      exact ih (Option.map_eq_none_iff.mp h) u hu

theorem add_eq_ok (h : add units e = .ok units') :
    (units' = e.unit :: units ∧
      ∀ u, units.find? (·.sameSlot e) = some u → u.completed? e = none) ∨
    ∃ before u after shape, units = before ++ u :: after ∧
      (∀ x ∈ before, x.sameSlot e = false) ∧ u.sameSlot e = true ∧ u.completed? e = some shape ∧
      (u.decorators = [] ∨ e.decorators = []) ∧
      units' = before ++ { u with shape, decorators := u.decorators ++ e.decorators } :: after := by
  unfold add at h
  split at h
  · rename_i hnone
    exact .inl ⟨(Except.ok.inj h).symm, completeLatest_eq_none hnone⟩
  · rename_i result hresult
    subst h
    exact .inr (completeLatest_eq_some hresult)

theorem add_plain (he : e.decorators = []) : ∃ units', add units e = .ok units' := by
  have hcomplete : ∀ list result, add.completeLatest e list = some result →
      ∃ list', result = .ok list' := by
    intro list
    induction list with
    | nil => exact fun result h => nomatch h
    | cons u rest ih =>
      intro result h
      rw [add.completeLatest] at h
      split at h
      · obtain ⟨shape, -, rfl⟩ := Option.map_eq_some_iff.mp h
        exact ⟨_, by rw [complete, he]; rfl⟩
      · obtain ⟨result', hr, rfl⟩ := Option.map_eq_some_iff.mp h
        obtain ⟨list', rfl⟩ := ih result' hr
        exact ⟨_, rfl⟩
  unfold add
  split
  · exact ⟨_, rfl⟩
  · rename_i result hresult
    exact hcomplete units result hresult

theorem completed?_of_latestShape {previous : ClassElement} {rest : List ClassElement}
    (h : latestShape (previous :: rest) = some u.shape) :
    u.completed? e = (partner? (e :: previous :: rest)).map e.paired := by
  have hshape := Option.some.inj h
  rw [partner?, completed?, ← hshape]
  cases hp : partner? (previous :: rest) with
  | none =>
    rw [Option.elim_none, ClassElement.opposes, ClassElement.unit]
    cases hk : previous.kind <;> cases he : e.kind <;> simp [ClassElement.paired, hk, he]
  | some other =>
    have hopposes : previous.opposes other = true := by
      cases rest with
      | nil => exact nomatch hp
      | cons next rest =>
        rw [partner?] at hp
        split at hp
        · rename_i hboth
          cases hp
          exact hboth.1
        · exact nomatch hp
    rw [ClassElement.opposes] at hopposes
    rw [Option.elim_some]
    cases hk : previous.kind <;> cases ho : other.kind <;> simp [hk, ho] at hopposes <;>
      cases he : e.kind <;> simp [ClassElement.paired, hk, ho]

def inSlot (name : String) (isStatic : Bool) (u : ElementUnit) : Bool :=
  u.name == name && u.isStatic == isStatic

def names (isStatic : Bool) (units : List ElementUnit) : List String :=
  (units.filter (·.isStatic == isStatic)).map (·.name)

structure Planned (elements : List ClassElement) (units : List ElementUnit) : Prop where
  shape : ∀ name isStatic, (units.find? (·.inSlot name isStatic)).map (·.shape) =
    latestShape (elements.filter (·.inSlot name isStatic))
  order : ∀ isStatic,
    (names isStatic units.reverse).eraseDups = (ClassElement.names isStatic elements.reverse).eraseDups

theorem inSlot_unit (e : ClassElement) (name : String) (isStatic : Bool) :
    e.unit.inSlot name isStatic = e.inSlot name isStatic := rfl

theorem mem_names {isStatic : Bool} {name : String} :
    name ∈ names isStatic units ↔ ∃ u ∈ units, u.inSlot name isStatic = true := by
  simp only [names, List.mem_map, List.mem_filter, inSlot, Bool.and_eq_true, beq_iff_eq]
  exact ⟨fun ⟨u, ⟨hu, hs⟩, hn⟩ => ⟨u, hu, hn, hs⟩, fun ⟨u, hu, hn, hs⟩ => ⟨u, ⟨hu, hs⟩, hn⟩⟩

theorem names_concat (isStatic : Bool) (units : List ElementUnit) (u : ElementUnit) :
    names isStatic (units ++ [u]) =
      names isStatic units ++ if u.isStatic = isStatic then [u.name] else [] := by
  by_cases h : u.isStatic = isStatic <;> simp [names, h]

theorem sameSlot_eq (u : ElementUnit) (e : ClassElement) :
    u.sameSlot e = u.inSlot e.name e.isStatic := rfl

theorem find?_of_inSlot {name : String} {isStatic : Bool} {before after : List ElementUnit}
    (hbefore : ∀ x ∈ before, x.inSlot name isStatic = false) (hu : u.inSlot name isStatic = true) :
    (before ++ u :: after).find? (·.inSlot name isStatic) = some u := by
  have hnone : before.find? (·.inSlot name isStatic) = none := by simpa using hbefore
  rw [List.find?_append, hnone, Option.none_or, List.find?_cons, hu]

theorem find?_of_not_inSlot {name : String} {isStatic : Bool} (before after : List ElementUnit)
    (hu : u.inSlot name isStatic = false) :
    (before ++ u :: after).find? (·.inSlot name isStatic) =
      (before ++ after).find? (·.inSlot name isStatic) := by
  rw [List.find?_append, List.find?_append, List.find?_cons, hu]

namespace Planned

variable {elements : List ClassElement}

theorem mem_names_iff (h : Planned elements units) (isStatic : Bool) (name : String) :
    name ∈ names isStatic units.reverse ↔ name ∈ ClassElement.names isStatic elements.reverse := by
  rw [← List.mem_eraseDups, h.order, List.mem_eraseDups]

theorem eraseDups_names_cons (e : ClassElement) (elements : List ClassElement) (isStatic : Bool) :
    (ClassElement.names isStatic (e :: elements).reverse).eraseDups =
      (ClassElement.names isStatic elements.reverse ++
        if e.isStatic = isStatic then [e.name] else []).eraseDups := by
  rw [List.reverse_cons, ClassElement.names_concat]

theorem alone (h : Planned elements units)
    (hlone : ∀ u, units.find? (·.inSlot e.name e.isStatic) = some u → u.completed? e = none) :
    Planned (e :: elements) (e.unit :: units) := by
  refine ⟨fun name isStatic => ?_, fun isStatic => ?_⟩
  · rw [List.find?_cons, List.filter_cons, inSlot_unit]
    cases hslot : e.inSlot name isStatic with
    | false => exact h.shape name isStatic
    | true =>
      obtain ⟨rfl, rfl⟩ := ClassElement.inSlot_iff.mp hslot
      rw [if_pos rfl]
      have hlatest := h.shape e.name e.isStatic
      cases hels : elements.filter (·.inSlot e.name e.isStatic) with
      | nil => rfl
      | cons previous rest =>
        -- The latest unit of the slot does not lack this half, so it is not the second of a pair.
        rw [hels, latestShape, Option.map_eq_some_iff] at hlatest
        obtain ⟨u, hu, hshape⟩ := hlatest
        have hnone := hlone u hu
        rw [completed?_of_latestShape (congrArg some hshape.symm), Option.map_eq_none_iff] at hnone
        rw [latestShape, hnone]
        rfl
  · rw [eraseDups_names_cons, List.reverse_cons, names_concat]
    change (_ ++ if e.isStatic = isStatic then [e.name] else []).eraseDups = _
    by_cases hs : e.isStatic = isStatic
    · simp only [if_pos hs, eraseDups_concat, h.mem_names_iff, h.order]
    · simp only [if_neg hs, List.append_nil, h.order]

theorem completed {before after : List ElementUnit} {shape : UnitShape} (decorators : List DecoratorExpr)
    (h : Planned elements (before ++ u :: after))
    (hbefore : ∀ x ∈ before, x.inSlot e.name e.isStatic = false)
    (hu : u.inSlot e.name e.isStatic = true) (hshape : u.completed? e = some shape) :
    Planned (e :: elements) (before ++ { u with shape, decorators } :: after) := by
  have hslots : ∀ name isStatic, u.inSlot name isStatic = e.inSlot name isStatic := by
    obtain ⟨hname, hstatic⟩ := sameSlot_iff.mp (u.sameSlot_eq e ▸ hu)
    intro name isStatic
    rw [inSlot, hname, hstatic]
    rfl
  refine ⟨fun name isStatic => ?_, fun isStatic => ?_⟩
  · have hlatest := h.shape name isStatic
    rw [List.filter_cons]
    cases hslot : e.inSlot name isStatic with
    | false =>
      have hother : u.inSlot name isStatic = false := (hslots name isStatic).trans hslot
      rw [find?_of_not_inSlot _ _ hother] at hlatest
      rw [find?_of_not_inSlot (u := { u with shape, decorators }) _ _ hother]
      exact hlatest
    | true =>
      obtain ⟨rfl, rfl⟩ := ClassElement.inSlot_iff.mp hslot
      rw [find?_of_inSlot hbefore hu] at hlatest
      rw [find?_of_inSlot (u := { u with shape, decorators }) hbefore hu, if_pos rfl]
      cases hels : elements.filter (·.inSlot e.name e.isStatic) with
      | nil =>
        rw [hels] at hlatest
        exact nomatch hlatest
      | cons previous rest =>
        rw [hels] at hlatest
        rw [completed?_of_latestShape hlatest.symm, Option.map_eq_some_iff] at hshape
        obtain ⟨_, hpartner, rfl⟩ := hshape
        rw [latestShape, hpartner]
        rfl
  · have hnames : names isStatic (before ++ { u with shape, decorators } :: after).reverse =
        names isStatic (before ++ u :: after).reverse := by
      simp [names, List.filter_cons, List.filter_append]
      split <;> simp
    rw [hnames, h.order, eraseDups_names_cons]
    by_cases hs : e.isStatic = isStatic
    · have hin : e.name ∈ ClassElement.names isStatic elements.reverse := by
        rw [← h.mem_names_iff, mem_names]
        exact ⟨u, by simp, hs ▸ hu⟩
      rw [if_pos hs, eraseDups_concat, if_pos hin, List.append_nil]
    · rw [if_neg hs, List.append_nil]

theorem add (h : Planned elements units) (hadd : add units e = .ok units') :
    Planned (e :: elements) units' := by
  rcases add_eq_ok hadd with ⟨rfl, hlone⟩ | ⟨before, u, after, shape, rfl, hbefore, hu, hshape, -, rfl⟩
  · exact h.alone hlone
  · exact h.completed _ hbefore hu hshape

end Planned

theorem ofElements_induction {P : List ClassElement → List ElementUnit → Prop} (nil : P [] [])
    (add : ∀ {elements units e units'}, P elements units → add units e = .ok units' →
      P (elements ++ [e]) units')
    {elements : List ClassElement} {units : List ElementUnit} (h : ofElements elements = .ok units) :
    P elements units.reverse := by
  rw [ofElements_eq] at h
  obtain ⟨list, hlist, rfl⟩ := Except.map_eq_ok.mp h
  clear h
  rw [List.reverse_reverse]
  induction elements using List.reverseRecOn generalizing list with
  | nil =>
    cases hlist
    exact nil
  | append_singleton elements e ih =>
    rw [List.foldlM_append] at hlist
    obtain ⟨earlier, hearlier, hlast⟩ := Except.bind_eq_ok.mp hlist
    simp only [List.foldlM_cons, List.foldlM_nil, bind_pure] at hlast
    exact add (ih earlier hearlier) hlast

theorem planned_ofElements {elements : List ClassElement} {units : List ElementUnit}
    (h : ofElements elements = .ok units) : Planned elements.reverse units.reverse := by
  refine ofElements_induction (P := fun elements units => Planned elements.reverse units)
    ⟨fun _ _ => rfl, fun _ => rfl⟩ (fun hplanned hadd => ?_) h
  rw [List.reverse_concat]
  exact hplanned.add hadd

theorem mem_names_ofElements {elements : List ClassElement} {units : List ElementUnit}
    (h : ofElements elements = .ok units) (isStatic : Bool) (name : String) :
    name ∈ names isStatic units ↔ name ∈ ClassElement.names isStatic elements := by
  have horder := (planned_ofElements h).order isStatic
  rw [List.reverse_reverse, List.reverse_reverse] at horder
  rw [← List.mem_eraseDups, horder, List.mem_eraseDups]

theorem forall_ofElements {P : ElementUnit → Prop} {elements : List ClassElement}
    {units : List ElementUnit} (h : ofElements elements = .ok units)
    (hunit : ∀ e ∈ elements, P e.unit)
    (hcomplete : ∀ e ∈ elements, ∀ u shape, P u → u.completed? e = some shape →
      P { u with shape, decorators := u.decorators ++ e.decorators }) : ∀ u ∈ units, P u := by
  have hall : elements ⊆ elements → ∀ u ∈ units.reverse, P u := by
    refine ofElements_induction (P := fun list units => list ⊆ elements → ∀ u ∈ units, P u)
      (fun _ u hu => nomatch hu) (fun {list units e units'} ih hadd hsub => ?_) h
    have he : e ∈ elements := hsub (List.mem_append_right _ (List.mem_singleton_self e))
    have hrest := ih fun x hx => hsub (List.mem_append_left _ hx)
    rcases add_eq_ok hadd with ⟨rfl, -⟩ | ⟨before, u, after, shape, rfl, -, -, hshape, -, rfl⟩
    · exact List.forall_mem_cons.mpr ⟨hunit e he, hrest⟩
    · simp only [List.forall_mem_append, List.forall_mem_cons] at hrest ⊢
      exact ⟨hrest.1, hcomplete e he u shape hrest.2.1 hshape, hrest.2.2⟩
  exact fun u hu => hall (List.Subset.refl _) u (List.mem_reverse.mpr hu)

theorem exists_field_of_ofElements {elements : List ClassElement} {units : List ElementUnit}
    (h : ofElements elements = .ok units) {u : ElementUnit} (hu : u ∈ units) {initializer : Option Expr}
    (hfield : u.shape = .field initializer) : ∃ e ∈ elements, e.kind = .field initializer := by
  refine forall_ofElements (P := fun u => u.shape = .field initializer →
    ∃ e ∈ elements, e.kind = .field initializer) h ?_ ?_ u hu hfield
  · intro e he hfield
    refine ⟨e, he, ?_⟩
    rw [ClassElement.unit] at hfield
    cases hk : e.kind <;> simp_all
  · intro e _ u shape _ hshape hfield
    have hfield : shape = .field initializer := hfield
    rw [completed?, hfield] at hshape
    split at hshape <;> simp at hshape

theorem ofElements_plain {elements : List ClassElement} (plain : ∀ e ∈ elements, e.decorators = []) :
    ∃ units, ofElements elements = .ok units ∧ ∀ u ∈ units, u.decorators = [] := by
  have hfold : ∀ list : List ElementUnit, ∃ list', elements.foldlM add list = .ok list' := by
    induction elements with
    | nil => exact fun list => ⟨list, rfl⟩
    | cons e elements ih =>
      intro list
      obtain ⟨later, hadd⟩ : ∃ later, add list e = .ok later := add_plain (plain e (List.mem_cons_self ..))
      obtain ⟨list', hrest⟩ := ih (fun x hx => plain x (List.mem_cons_of_mem _ hx)) later
      refine ⟨list', ?_⟩
      rw [List.foldlM_cons]
      exact Except.bind_eq_ok.mpr ⟨later, hadd, hrest⟩
  obtain ⟨list, hlist⟩ := hfold []
  have hunits : ofElements elements = .ok list.reverse :=
    (ofElements_eq elements).trans (Except.map_eq_ok.mpr ⟨list, hlist, rfl⟩)
  refine ⟨list.reverse, hunits, forall_ofElements hunits plain fun e he u shape hu _ => ?_⟩
  dsimp only
  rw [hu, plain e he, List.append_nil]

end ElementUnit
end Decoration
