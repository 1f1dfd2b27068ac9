import Decoration.Capability.Response
import Decoration.Proofs.Undecorated.Pair
import Decoration.Proofs.Undecorated.Source

/-! A class without decorators. Its units define one property each, one after another, and a later unit of
a slot replaces an earlier one. -/

namespace Decoration

open Decoration.Action

variable {σ : Type}

namespace Engine

variable {e : Engine σ} {pair : ClassPair} {env : Environment} {u : ElementUnit}
  {units : List ElementUnit} {w w₀ w' : World σ}

structure Plain (e : Engine σ) (env : Environment) (u : ElementUnit) : Prop where
  decorators : u.decorators = []
  spares : u.Spares e.caller env

theorem yields_evaluateUnits_append {first second : List ElementUnit} :
    (e.evaluateUnits pair env (first ++ second)).Yields w () w' ↔
      ∃ v, (e.evaluateUnits pair env first).Yields w () v ∧
        (e.evaluateUnits pair env second).Yields v () w' := by
  induction first generalizing w with
  | nil => exact ⟨fun h => ⟨w, yields_pure.mpr ⟨rfl, rfl⟩, h⟩, by rintro ⟨_, ⟨-, rfl⟩, h⟩; exact h⟩
  | cons u rest ih =>
    constructor
    · intro h
      obtain ⟨⟨⟩, w₁, hu, h⟩ := yields_bind.mp h
      obtain ⟨v, hrest, hsecond⟩ := ih.mp h
      exact ⟨v, yields_bind.mpr ⟨(), w₁, hu, hrest⟩, hsecond⟩
    · rintro ⟨v, hfirst, hsecond⟩
      obtain ⟨⟨⟩, w₁, hu, hrest⟩ := yields_bind.mp hfirst
      exact yields_bind.mpr ⟨(), w₁, hu, ih.mpr ⟨v, hrest, hsecond⟩⟩

theorem yields_evaluateUnits_singleton :
    (e.evaluateUnits pair env [u]).Yields w () w' ↔ (e.evaluateUnit pair env u).Yields w () w' := by
  refine yields_bind.trans ⟨?_, fun h => ⟨(), w', h, yields_pure.mpr ⟨rfl, rfl⟩⟩⟩
  rintro ⟨⟨⟩, v, hu, h⟩
  obtain ⟨-, rfl⟩ := yields_pure.mp h
  exact hu

theorem Plain.yields_evaluateUnit (hs : e.store = .ordinary σ) (hu : e.Plain env u) :
    (e.evaluateUnit pair env u).Yields w () w' ↔
      ∃ made v, (u.source e.caller env).Yields w made v ∧
        (v.heap.object (pair.side u.isStatic)).Accepts u.name (made.descriptor e.config) ∧
        v.insert (pair.side u.isStatic) u.name (made.descriptor e.config) = w' := by
  rw [Engine.yields_evaluateUnit, hu.decorators, hs]
  constructor
  · rintro ⟨ds, w₁, made, v, hcollect, hsource, hinstall⟩
    obtain ⟨rfl, rfl⟩ := yields_pure.mp hcollect
    exact ⟨made, v, hsource, Store.yields_install.mp hinstall⟩
  · rintro ⟨made, v, hsource, hinstall⟩
    exact ⟨[], w, made, v, yields_pure.mpr ⟨rfl, rfl⟩, hsource, Store.yields_install.mpr hinstall⟩

theorem configurable_descriptor (helements : e.config.elements.configurable = true)
    (haccessors : e.config.accessors.configurable = true) (made : UnitSource) :
    (made.descriptor e.config).configurable = true := by
  cases made with
  | value v => exact helements
  | accessor getter setter => exact haccessors

/-- The descriptor is made by the unit, which is evaluated when those before it have been. -/
def MadeFrom (e : Engine σ) (pair : ClassPair) (env : Environment) (w₀ : World σ) (h : Heap)
    (before : List ElementUnit) (u : ElementUnit) (d : Descriptor) : Prop :=
  ∃ v, (e.evaluateUnits pair env before).Yields w₀ () v ∧
    u.shape.Makes e.caller env e.config v h d

structure Leaves (e : Engine σ) (pair : ClassPair) (env : Environment) (w₀ : World σ)
    (units : List ElementUnit) (h : Heap) : Prop where
  keys : ∀ isStatic, h.ownKeys (pair.side isStatic) =
    (ClassPair.firstKey isStatic :: ElementUnit.names isStatic units).eraseDups
  first : ∀ isStatic, ClassPair.firstKey isStatic ∉ ElementUnit.names isStatic units →
    h.own? (pair.side isStatic) (ClassPair.firstKey isStatic) = some (pair.firstDescriptor isStatic)
  slot : ∀ before u after, units = before ++ u :: after →
    (∀ x ∈ after, x.inSlot u.name u.isStatic = false) →
    ∃ d, h.own? (pair.side u.isStatic) u.name = some d ∧ e.MadeFrom pair env w₀ h before u d

theorem leaves_of_create {className : String} {w w₀ : World σ}
    (hcreate : (ClassPair.create className : Action σ DecorationFault ClassPair).Yields w pair w₀) :
    e.Leaves pair env w₀ [] w₀.heap := by
  refine ⟨fun b => ?_, fun b _ => ?_, fun before u after h => ?_⟩
  · obtain ⟨kind, hobject⟩ := ClassPair.links_of_create hcreate b
    rw [Heap.ownKeys, hobject]
    rfl
  · obtain ⟨kind, hobject⟩ := ClassPair.links_of_create hcreate b
    rw [Heap.own?, hobject, Object.find?_insert_self]
  · exact absurd h (by simp)

theorem Plain.underway (hs : e.store = .ordinary σ)
    (hfree : ∀ made : UnitSource, (made.descriptor e.config).configurable = true)
    (hp : pair.Underway w.heap) (hu : e.Plain env u)
    (h : (e.evaluateUnit pair env u).Yields w () w') :
    ClassPair.Open u.isStatic u.name ∧ pair.Underway w'.heap := by
  obtain ⟨made, v, hsource, haccepts, rfl⟩ := (hu.yields_evaluateUnit hs).mp h
  have hv : pair.Underway v.heap := hp.grows (hu.spares.source.yields hsource)
  have hopen := (hv.accepts_iff (hfree made)).mp haccepts
  exact ⟨hopen, hv.withProperties (hfree made) hopen⟩

theorem Plain.exists_yields_iff (hs : e.store = .ordinary σ)
    (hfree : ∀ made : UnitSource, (made.descriptor e.config).configurable = true)
    (hp : pair.Underway w.heap) (hu : e.Plain env u) :
    (∃ w', (e.evaluateUnit pair env u).Yields w () w') ↔
      (∀ x, u.shape = .field (some x) → ∃ a w', (x.evaluate e.caller env).Yields w a w') ∧
        ClassPair.Open u.isStatic u.name := by
  rw [← ElementUnit.exists_source_iff]
  constructor
  · rintro ⟨w', h⟩
    obtain ⟨made, v, hsource, -⟩ := (hu.yields_evaluateUnit hs).mp h
    exact ⟨⟨made, v, hsource⟩, (hu.underway hs hfree hp h).1⟩
  · rintro ⟨⟨made, v, hsource⟩, hopen⟩
    have hv : pair.Underway v.heap := hp.grows (hu.spares.source.yields hsource)
    have haccepts := (hv.accepts_iff (hfree made)).mpr hopen
    exact ⟨_, (hu.yields_evaluateUnit hs).mpr ⟨made, v, hsource, haccepts, rfl⟩⟩

theorem Plain.inserts (hs : e.store = .ordinary σ) (hu : e.Plain env u)
    (h : (e.evaluateUnit pair env u).Yields w () w') :
    ∃ d, ∃ v : World σ, w.heap.Grows v.heap ∧ (pair.side u.isStatic).index < v.heap.objects.size ∧
      w.heap.KeepsFunctions w'.heap ∧ u.shape.Makes e.caller env e.config w w'.heap d ∧
      w' = v.insert (pair.side u.isStatic) u.name d := by
  obtain ⟨made, v, hsource, haccepts, rfl⟩ := (hu.yields_evaluateUnit hs).mp h
  have hgrows : w.heap.Grows v.heap := hu.spares.source.yields hsource
  have hbound := Heap.lt_size_of_accepts haccepts
  have hkeeps : v.heap.KeepsFunctions
      (v.insert (pair.side u.isStatic) u.name (made.descriptor e.config)).heap :=
    Heap.keepsFunctions_withProperties hbound _
  exact ⟨_, v, hgrows, hbound, hgrows.keepsFunctions.trans hkeeps,
    (ElementUnit.makes_of_source e.config hsource).mono hkeeps, rfl⟩

theorem Plain.effect (hs : e.store = .ordinary σ) (hp : pair.Underway w.heap) (hu : e.Plain env u)
    (h : (e.evaluateUnit pair env u).Yields w () w') :
    ∃ d, u.shape.Makes e.caller env e.config w w'.heap d ∧ w.heap.KeepsFunctions w'.heap ∧
      (∀ b key, w'.heap.own? (pair.side b) key =
        if b = u.isStatic ∧ key = u.name then some d else w.heap.own? (pair.side b) key) ∧
      ∀ b, w'.heap.ownKeys (pair.side b) =
        if b = u.isStatic then
          w.heap.ownKeys (pair.side b) ++ if u.name ∈ w.heap.ownKeys (pair.side b) then [] else [u.name]
        else w.heap.ownKeys (pair.side b) := by
  obtain ⟨d, v, hgrows, -, hkeeps, hmakes, rfl⟩ := hu.inserts hs h
  have hv : pair.Underway v.heap := hp.grows hgrows
  have hobject : ∀ b, v.heap.object (pair.side b) = w.heap.object (pair.side b) :=
    fun b => hgrows.same _ (hp.bound b)
  refine ⟨d, hmakes, hkeeps, fun b key => ?_, fun b => ?_⟩
  · refine (hv.own?_withProperties b key).trans ?_
    rw [Heap.own?, hobject, Heap.own?]
  · have hkeys : v.heap.ownKeys (pair.side b) = w.heap.ownKeys (pair.side b) := by
      rw [Heap.ownKeys, hobject, Heap.ownKeys]
    exact hkeys ▸ hv.ownKeys_withProperties b

theorem Leaves.concat (hs : e.store = .ordinary σ) (hl : e.Leaves pair env w₀ units w.heap)
    (hp : pair.Underway w.heap) (hu : e.Plain env u)
    (hunits : (e.evaluateUnits pair env units).Yields w₀ () w)
    (h : (e.evaluateUnit pair env u).Yields w () w') :
    e.Leaves pair env w₀ (units ++ [u]) w'.heap := by
  obtain ⟨d, hmakes, hkeeps, hown, hkeys⟩ := hu.effect hs hp h
  refine ⟨fun b => ?_, fun b hfirst => ?_, fun before x after heq hafter => ?_⟩
  · rw [hkeys, hl.keys, ElementUnit.names_concat]
    by_cases hb : b = u.isStatic
    · rw [if_pos hb, if_pos hb.symm, ← List.cons_append, eraseDups_concat]
      simp only [List.mem_eraseDups]
    · rw [if_neg hb, if_neg (Ne.symm hb), List.append_nil]
  · rw [ElementUnit.names_concat, List.mem_append, not_or] at hfirst
    rw [hown, if_neg]
    · exact hl.first b hfirst.1
    · rintro ⟨hb, hkey⟩
      exact hfirst.2 (by rw [if_pos hb.symm, hkey, List.mem_singleton])
  · rcases List.eq_nil_or_concat after with rfl | ⟨rest, last, rfl⟩
    · obtain ⟨rfl, hlast⟩ := List.append_inj' heq rfl
      obtain rfl := (List.cons.inj hlast).1
      exact ⟨d, by rw [hown, if_pos ⟨rfl, rfl⟩], w, hunits, hmakes⟩
    · rw [List.concat_eq_append] at heq hafter
      rw [← List.cons_append, ← List.append_assoc] at heq
      obtain ⟨rfl, hlast⟩ := List.append_inj' heq rfl
      obtain rfl := (List.cons.inj hlast).1
      -- The new unit is in another slot, so what the earlier one left is still there.
      have hother := hafter u (by simp)
      obtain ⟨earlier, hearlier, w₁, hbefore, hmakes₁⟩ :=
        hl.slot before x rest rfl fun y hy => hafter y (by simp [hy])
      refine ⟨earlier, ?_, w₁, hbefore, hmakes₁.mono hkeeps⟩
      rw [hown, if_neg, hearlier]
      rintro ⟨hb, hname⟩
      rw [ElementUnit.inSlot, hb, hname] at hother
      simp at hother

theorem leaves_evaluateUnits (hs : e.store = .ordinary σ)
    (hfree : ∀ made : UnitSource, (made.descriptor e.config).configurable = true)
    (hp : pair.Underway w₀.heap) (hl : e.Leaves pair env w₀ [] w₀.heap)
    (hplain : ∀ u ∈ units, e.Plain env u)
    (h : (e.evaluateUnits pair env units).Yields w₀ () w') :
    pair.Underway w'.heap ∧ e.Leaves pair env w₀ units w'.heap ∧
      ∀ u ∈ units, ClassPair.Open u.isStatic u.name := by
  -- From the end: the last unit meets what the others have left.
  induction units using List.reverseRecOn generalizing w' with
  | nil =>
    obtain ⟨-, rfl⟩ := yields_pure.mp h
    exact ⟨hp, hl, by simp⟩
  | append_singleton units u ih =>
    obtain ⟨w, hunits, hlast⟩ := yields_evaluateUnits_append.mp h
    rw [yields_evaluateUnits_singleton] at hlast
    have hu := hplain u (by simp)
    obtain ⟨hp', hl', hopen⟩ := ih (fun x hx => hplain x (List.mem_append_left _ hx)) hunits
    obtain ⟨hopenLast, hpLast⟩ := hu.underway hs hfree hp' hlast
    exact ⟨hpLast, hl'.concat hs hp' hu hunits hlast,
      List.forall_mem_append.mpr ⟨hopen, by simpa using hopenLast⟩⟩

def ReachesInitializer (e : Engine σ) (pair : ClassPair) (env : Environment)
    (units : List ElementUnit) (w₀ : World σ) (x : Expr) (v : World σ) : Prop :=
  ∃ before u after, units = before ++ u :: after ∧ u.shape = .field (some x) ∧
    (e.evaluateUnits pair env before).Yields w₀ () v

theorem exists_yields_evaluateUnits_iff (hs : e.store = .ordinary σ)
    (hfree : ∀ made : UnitSource, (made.descriptor e.config).configurable = true)
    (hp : pair.Underway w₀.heap) (hl : e.Leaves pair env w₀ [] w₀.heap)
    (hplain : ∀ u ∈ units, e.Plain env u) :
    (∃ w', (e.evaluateUnits pair env units).Yields w₀ () w') ↔
      (∀ x v, e.ReachesInitializer pair env units w₀ x v →
        ∃ a v', (x.evaluate e.caller env).Yields v a v') ∧
      ∀ u ∈ units, ClassPair.Open u.isStatic u.name := by
  constructor
  · rintro ⟨w', h⟩
    refine ⟨?_, (leaves_evaluateUnits hs hfree hp hl hplain h).2.2⟩
    rintro x v ⟨before, u, after, rfl, hshape, hbefore⟩
    obtain ⟨v', hbefore', hrest⟩ := yields_evaluateUnits_append.mp h
    obtain ⟨-, rfl⟩ := hbefore.unique hbefore'
    obtain ⟨⟨⟩, w₁, hu, -⟩ := yields_bind.mp hrest
    obtain ⟨made, v₁, hsource, -⟩ := ((hplain u (by simp)).yields_evaluateUnit hs).mp hu
    exact ElementUnit.exists_source_iff.mp ⟨made, v₁, hsource⟩ x hshape
  · rintro ⟨hinitializers, hopen⟩
    induction units using List.reverseRecOn with
    | nil => exact ⟨w₀, yields_pure.mpr ⟨rfl, rfl⟩⟩
    | append_singleton units u ih =>
      have hplain' : ∀ x ∈ units, e.Plain env x := fun x hx => hplain x (List.mem_append_left _ hx)
      have hearlier : ∀ x v, e.ReachesInitializer pair env units w₀ x v →
          ∃ a v', (x.evaluate e.caller env).Yields v a v' := by
        rintro x v ⟨before, y, after, rfl, hshape, hbefore⟩
        exact hinitializers x v ⟨before, y, after ++ [u], by simp, hshape, hbefore⟩
      obtain ⟨v, hunits⟩ := ih hplain' hearlier fun x hx => hopen x (List.mem_append_left _ hx)
      have hp' := (leaves_evaluateUnits hs hfree hp hl hplain' hunits).1
      obtain ⟨w', hlast⟩ := ((hplain u (by simp)).exists_yields_iff hs hfree hp').mpr
        ⟨fun x hx => hinitializers x v ⟨units, u, [], rfl, hx, hunits⟩, hopen u (by simp)⟩
      exact ⟨w', yields_evaluateUnits_append.mpr ⟨v, hunits, yields_evaluateUnits_singleton.mpr hlast⟩⟩

/-- What the two objects of a class hold, told from its elements. A slot holds a descriptor with the
configured attributes that is made from the last unit of the slot. -/
structure Realizes (e : Engine σ) (pair : ClassPair) (env : Environment) (w₀ : World σ)
    (elements : List ClassElement) (units : List ElementUnit) (h : Heap) : Prop where
  prototypeKeys : h.ownKeys pair.prototype =
    "constructor" :: (ClassElement.names false elements).eraseDups.filter (· ≠ "constructor")
  constructorKeys : h.ownKeys pair.constructor =
    "prototype" :: (ClassElement.names true elements).eraseDups
  link : h.own? pair.constructor "prototype" = some (.data (.object pair.prototype) false false false)
  back : "constructor" ∉ ClassElement.names false elements →
    h.own? pair.prototype "constructor" = some (.data (.object pair.constructor) true false true)
  slot : ∀ name isStatic shape,
    ClassElement.latestShape (elements.reverse.filter (·.inSlot name isStatic)) = some shape →
    ∃ before u after d, units = before ++ u :: after ∧ u.inSlot name isStatic = true ∧
      (∀ x ∈ after, x.inSlot name isStatic = false) ∧ u.shape = shape ∧
      h.own? (pair.side isStatic) name = some d ∧ e.MadeFrom pair env w₀ h before u d

theorem forall_open_iff :
    (∀ u ∈ units, ClassPair.Open u.isStatic u.name) ↔ "prototype" ∉ ElementUnit.names true units := by
  rw [ElementUnit.mem_names]
  simp only [ElementUnit.inSlot, Bool.and_eq_true, beq_iff_eq, not_exists, not_and, ClassPair.Open]
  exact forall₂_congr fun u _ => ⟨fun h hn hs => h hs hn, fun h hs hn => h hn hs⟩

theorem Leaves.realizes {elements : List ClassElement} {h : Heap}
    (hunits : ElementUnit.ofElements elements = .ok units) (hl : e.Leaves pair env w₀ units h)
    (hopen : ∀ u ∈ units, ClassPair.Open u.isStatic u.name) :
    e.Realizes pair env w₀ elements units h := by
  have hplanned := ElementUnit.planned_ofElements hunits
  have horder : ∀ b, (ElementUnit.names b units).eraseDups = (ClassElement.names b elements).eraseDups :=
    fun b => by simpa using hplanned.order b
  have hlink : "prototype" ∉ ElementUnit.names true units := forall_open_iff.mp hopen
  refine ⟨?_, ?_, hl.first true hlink, fun hback => hl.first false fun h =>
    hback ((ElementUnit.mem_names_ofElements hunits _ _).mp h), ?_⟩
  · rw [← horder, ← eraseDups_cons_filter]
    exact hl.keys false
  · rw [← horder]
    refine (hl.keys true).trans ?_
    rw [eraseDups_cons_filter, List.filter_eq_self.mpr]
    · rfl
    · intro key hkey
      rw [List.mem_eraseDups] at hkey
      exact decide_eq_true fun heq => hlink (by rwa [show key = "prototype" from heq] at hkey)
  · intro name isStatic shape hshape
    rw [← hplanned.shape, Option.map_eq_some_iff] at hshape
    obtain ⟨u, hfind, rfl⟩ := hshape
    obtain ⟨hslot, after, before, hsplit, hafter⟩ := List.find?_eq_some_iff_append.mp hfind
    have heq : units = before.reverse ++ u :: after.reverse := by
      rw [← List.reverse_reverse units, hsplit]
      simp
    have hafter' : ∀ x ∈ after.reverse, x.inSlot name isStatic = false := by
      intro x hx
      simpa using hafter x (by simpa using hx)
    have hboth := hslot
    simp only [ElementUnit.inSlot, Bool.and_eq_true, beq_iff_eq] at hboth
    obtain ⟨rfl, rfl⟩ := hboth
    obtain ⟨d, hd, hmade⟩ := hl.slot _ _ _ heq hafter'
    exact ⟨_, u, _, d, heq, hslot, hafter', rfl, hd, hmade⟩

theorem yields_evaluateClass_plain {decl : ClassDecl} (hdecl : decl.decorators = []) {id : ObjectId} :
    (e.evaluateClass decl env).Yields w id w' ↔
      ∃ members, (e.evaluateMembers decl env).Yields w members w' ∧ members.1.constructor = id := by
  refine yields_report_bind.trans (yields_bind.trans ?_)
  rw [hdecl]
  constructor
  · rintro ⟨members, v, hmembers, h⟩
    obtain ⟨ds, v', hds, h⟩ := yields_bind.mp h
    obtain ⟨rfl, rfl⟩ := yields_pure.mp hds
    obtain ⟨rfl, rfl⟩ := yields_pure.mp h
    exact ⟨members, hmembers, rfl⟩
  · rintro ⟨members, hmembers, rfl⟩
    exact ⟨members, w', hmembers, yields_bind.mpr ⟨[], w', yields_pure.mpr ⟨rfl, rfl⟩,
      yields_pure.mpr ⟨rfl, rfl⟩⟩⟩

/-- The meaning of a class without decorators whose initializers leave the objects that are there as they
are: it is evaluated if every initializer can be at its turn and no static element is named
`prototype`, and its two objects then hold what the elements tell. -/
theorem evaluateClass_plain (e : Engine σ) (decl : ClassDecl) (env : Environment) (w : World σ)
    (ordinary : e.store = .ordinary σ)
    (undecorated : decl.decorators = [] ∧ ∀ element ∈ decl.elements, element.decorators = [])
    (spared : ∀ element ∈ decl.elements, ∀ x, element.kind = .field (some x) →
      (x.evaluate e.caller env).Spares)
    (configurable : e.config.elements.configurable = true ∧ e.config.accessors.configurable = true) :
    ∃ pair w₀ units,
      (ClassPair.create decl.name : Action σ DecorationFault ClassPair).Yields w pair w₀ ∧
      ElementUnit.ofElements decl.elements = .ok units ∧
      ((∃ id w', (e.evaluateClass decl env).Yields w id w') ↔
        (∀ x v, e.ReachesInitializer pair env units w₀ x v →
          ∃ a v', (x.evaluate e.caller env).Yields v a v') ∧
        ∀ element ∈ decl.elements, ¬(element.isStatic = true ∧ element.name = "prototype")) ∧
      ∀ id w', (e.evaluateClass decl env).Yields w id w' →
        id = pair.constructor ∧ e.Realizes pair env w₀ decl.elements units w'.heap := by
  obtain ⟨pair, w₀, hcreate⟩ : ∃ pair w₀,
      (ClassPair.create decl.name : Action σ DecorationFault ClassPair).Yields w pair w₀ :=
    ⟨_, _, yields_onHeap.mpr ⟨rfl, rfl⟩⟩
  obtain ⟨units, hunits, hdecorators⟩ := ElementUnit.ofElements_plain undecorated.2
  have hplain : ∀ u ∈ units, e.Plain env u := by
    refine fun u hu => ⟨hdecorators u hu, fun x hx => ?_⟩
    obtain ⟨element, helement, hkind⟩ := ElementUnit.exists_field_of_ofElements hunits hu hx
    exact spared element helement x hkind
  have hp := ClassPair.underway_of_create hcreate
  have hl : e.Leaves pair env w₀ [] w₀.heap := leaves_of_create hcreate
  have hfree := configurable_descriptor configurable.1 configurable.2
  have hclass : ∀ id w', (e.evaluateClass decl env).Yields w id w' ↔
      (e.evaluateUnits pair env units).Yields w₀ () w' ∧ pair.constructor = id := by
    intro id w'
    rw [yields_evaluateClass_plain undecorated.1]
    constructor
    · rintro ⟨⟨pair', units'⟩, hmembers, rfl⟩
      obtain ⟨w₁, hcreate', hunits', hall⟩ := yields_evaluateMembers.mp hmembers
      obtain ⟨rfl, rfl⟩ := hcreate.unique hcreate'
      obtain rfl : units = units' := Except.ok.inj (hunits.symm.trans hunits')
      exact ⟨hall, rfl⟩
    · rintro ⟨hall, rfl⟩
      exact ⟨(pair, units), yields_evaluateMembers.mpr ⟨w₀, hcreate, hunits, hall⟩, rfl⟩
  have hopen : (∀ u ∈ units, ClassPair.Open u.isStatic u.name) ↔
      ∀ element ∈ decl.elements, ¬(element.isStatic = true ∧ element.name = "prototype") := by
    rw [forall_open_iff, ElementUnit.mem_names_ofElements hunits, ClassElement.mem_names]
    simp only [ClassElement.inSlot_iff, not_exists, not_and]
    exact forall₂_congr fun element _ => ⟨fun h hs hn => h hn hs, fun h hn hs => h hs hn⟩
  refine ⟨pair, w₀, units, hcreate, hunits, ?_, fun id w' h => ?_⟩
  · rw [← hopen, ← exists_yields_evaluateUnits_iff ordinary hfree hp hl hplain]
    exact ⟨fun ⟨id, w', h⟩ => ⟨w', ((hclass id w').mp h).1⟩,
      fun ⟨w', h⟩ => ⟨_, w', (hclass _ w').mpr ⟨h, rfl⟩⟩⟩
  · obtain ⟨hall, rfl⟩ := (hclass id w').mp h
    obtain ⟨-, hleaves, hopenUnits⟩ := leaves_evaluateUnits ordinary hfree hp hl hplain hall
    exact ⟨rfl, hleaves.realizes hunits hopenUnits⟩

def crowdedClass : ClassDecl where
  name := "Point"
  elements := [
    { name := "x", kind := .getter (.constant "old" .null) },
    { name := "constructor", kind := .field (some (.literal (.bool true))) },
    { name := "of", isStatic := true, kind := .method (.constant "of" .undefined) },
    { name := "x", kind := .setter (.constant "set" .undefined) },
    { name := "x", kind := .getter (.constant "new" .null) }]

theorem evaluateClass_plain_crowdedClass :
    ∃ (pair : ClassPair) (w' : World Unit) (f : Value),
      (evaluateClass { caller := Caller.nested Host.none 1, store := .ordinary Unit }
        crowdedClass {}).Yields ⟨{}, ()⟩ pair.constructor w' ∧
      w'.heap.ownKeys pair.prototype = ["constructor", "x"] ∧
      w'.heap.ownKeys pair.constructor = ["prototype", "of"] ∧
      w'.heap.own? pair.prototype "constructor" = some (.data (.bool true) true false true) ∧
      w'.heap.own? pair.prototype "x" = some (.accessor (some f) none false true) ∧
      w'.heap.capability? f = some (.constant "new" .null) := by
  have hspared : ∀ element ∈ crowdedClass.elements, ∀ x, element.kind = .field (some x) →
      (x.evaluate (Caller.nested (Host.none : Host Unit) 1) {}).Spares := by
    have hkind : ∀ element ∈ crowdedClass.elements, ∀ x, element.kind = .field (some x) →
        x = .literal (.bool true) := by
      simp [crowdedClass]
    intro element helement x hx
    rw [hkind element helement x hx]
    exact Spares.pure _
  obtain ⟨pair, w₀, units, hcreate, hunits, -, hmeaning⟩ :=
    evaluateClass_plain { caller := Caller.nested Host.none 1, store := .ordinary Unit } crowdedClass {}
      ⟨{}, ()⟩ rfl ⟨rfl, by simp [crowdedClass]⟩ hspared ⟨rfl, rfl⟩
  obtain ⟨hid, hrealizes⟩ := hmeaning _ _ ⟨rfl, rfl⟩
  obtain ⟨_, u, _, _, -, -, -, hshape, hx, _, -, hmakes⟩ :=
    hrealizes.slot "x" false (.accessor (some (.constant "new" .null)) none) rfl
  obtain ⟨_, u', _, _, -, -, -, hshape', hback, _, -, hmakes'⟩ :=
    hrealizes.slot "constructor" false (.field (some (.literal (.bool true)))) rfl
  rw [hshape] at hmakes
  rw [hshape'] at hmakes'
  cases hmakes with
  | accessor get set =>
    cases get with
    | some hfunction =>
      cases set
      cases hmakes' with
      | initializer evaluated =>
        obtain ⟨rfl, -⟩ := yields_pure.mp evaluated
        exact ⟨pair, _, _, hid ▸ ⟨rfl, rfl⟩, hrealizes.prototypeKeys, hrealizes.constructorKeys, hback,
          hx, hfunction⟩

end Engine
end Decoration
