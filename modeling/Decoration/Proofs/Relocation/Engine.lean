import Decoration.Engine.Literal
import Decoration.Proofs.Pairing
import Decoration.Proofs.Relocation.Chain

/-! Declarations evaluated from a heap and from one that mirrors it. -/

namespace Decoration

open Decoration.Action

variable {σ ε : Type} {t : Relocation} {w w' : World σ} {env env' : Environment}

/-! What declarations are made of: functions with fixed results, literals, and decorators that both
environments share. -/

def Capability.Fixed (c : Capability) : Prop :=
  ∃ name result, c = .constant name result ∧ result.Primitive

def Expr.IsLiteral (x : Expr) : Prop := ∃ l, x = .literal l

def UnitShape.Fixed : UnitShape → Prop
  | method body => body.Fixed
  | field initializer => ∀ x ∈ initializer, x.IsLiteral
  | accessor getter setter => (∀ c ∈ getter, c.Fixed) ∧ ∀ c ∈ setter, c.Fixed

def PropertyKind.Fixed : PropertyKind → Prop
  | init x => x.IsLiteral
  | method body | getter body | setter body => body.Fixed

structure ClassElement.Shared (env env' : Environment) (e : ClassElement) : Prop where
  decorators : ∀ d ∈ e.decorators, d.Shared env env'
  shape : e.unit.shape.Fixed

structure ElementUnit.Shared (env env' : Environment) (u : ElementUnit) : Prop where
  decorators : ∀ d ∈ u.decorators, d.Shared env env'
  shape : u.shape.Fixed

structure LiteralProperty.Shared (env env' : Environment) (p : LiteralProperty) : Prop where
  decorators : ∀ d ∈ p.decorators, d.Shared env env'
  kind : p.kind.Fixed

def Declaration.Shared (env env' : Environment) : Declaration → Prop
  | ofClass decl =>
    (∀ d ∈ decl.decorators, d.Shared env env') ∧ ∀ e ∈ decl.elements, e.Shared env env'
  | ofLiteral _ literal => ∀ p ∈ literal.properties, p.Shared env env'

theorem ElementUnit.shared_ofElements {elements : List ClassElement} {units : List ElementUnit}
    (hunits : ofElements elements = .ok units) (h : ∀ e ∈ elements, e.Shared env env') :
    ∀ u ∈ units, u.Shared env env' := by
  refine forall_ofElements hunits (fun e he => ⟨(h e he).decorators, (h e he).shape⟩) ?_
  intro e he u shape hu hshape
  refine ⟨List.forall_mem_append.mpr ⟨hu.decorators, (h e he).decorators⟩, ?_⟩
  have hold := hu.shape
  have hnew := (h e he).shape
  unfold completed? at hshape
  split at hshape
  · rename_i setter body hbefore hkind
    rw [hbefore] at hold
    rw [ClassElement.unit, hkind] at hnew
    obtain rfl := Option.some.inj hshape
    exact ⟨hnew.1, hold.2⟩
  · rename_i getter body hbefore hkind
    rw [hbefore] at hold
    rw [ClassElement.unit, hkind] at hnew
    obtain rfl := Option.some.inj hshape
    exact ⟨hold.1, hnew.2⟩
  · cases hshape

theorem Capability.Fixed.alike_function {c : Capability} (hc : c.Fixed)
    (m : t.Mirrors w.heap w'.heap) {F : ε → ε → Prop} :
    Run.Alike t F (fun h f f' => f' = t.object f ∧
        ∃ name result, h.capability? (.object f) = some (.constant name result)) w.heap
      ((c.function : Action σ ε ObjectId) w) ((c.function : Action σ ε ObjectId) w') := by
  obtain ⟨name, result, rfl, hresult⟩ := hc
  have hrun := Capability.alike_function m (.constant name result) (F := F)
  rw [show t.capability (.constant name result) = .constant name result from
    congrArg (Capability.constant name) (Relocation.value_of_portable hresult.portable)] at hrun
  exact hrun.mono fun h f f' ⟨hf, _, hcapability⟩ => ⟨hf, name, result, hcapability⟩

theorem Capability.alike_functions {c : Option Capability} (hc : ∀ x ∈ c, x.Fixed)
    (m : t.Mirrors w.heap w'.heap) {F : ε → ε → Prop} :
    Run.Alike t F (fun h f f' => f' = f.map t.object ∧
        ∀ x ∈ f, ∃ name result, h.capability? (.object x) = some (.constant name result)) w.heap
      ((c.mapM Capability.function : Action σ ε (Option ObjectId)) w)
      ((c.mapM Capability.function : Action σ ε (Option ObjectId)) w') := by
  cases c with
  | none => exact .pure m ⟨rfl, fun _ h => nomatch h⟩
  | some c =>
    have hrun := (hc c rfl).alike_function m (F := F)
    change Run.Alike t F _ w.heap ((some <$> c.function) w) ((some <$> c.function) w')
    rw [map_eq_pure_bind]
    refine hrun.bind fun {f _ _ _} m' _ h => .pure m' ⟨congrArg some h.1, fun x hx => ?_⟩
    obtain rfl := Option.some.inj hx
    exact h.2

/-! Definitions, and the objects that they are made on. -/

def Relocation.pair (t : Relocation) (pair : ClassPair) : ClassPair :=
  ⟨t.object pair.constructor, t.object pair.prototype⟩

structure ClassPair.Own (pair : ClassPair) : Prop where
  constructor : libraryCount ≤ pair.constructor.index
  prototype : libraryCount ≤ pair.prototype.index

theorem ClassPair.alike_create (m : t.Mirrors w.heap w'.heap) (name : String) {F : ε → ε → Prop} :
    Run.Alike t F (fun _ pair pair' => pair' = t.pair pair ∧ pair.Own) w.heap
      ((create name : Action σ ε ClassPair) w) ((create name : Action σ ε ClassPair) w') := by
  obtain ⟨m₁, hprototype, hown⟩ := m.addObject (o := {}) rfl rfl
  obtain ⟨m₂, hconstructor, hown'⟩ := m₁.addObject (o := { kind := .classValue name }) rfl rfl
  let h₁ := (w.heap.addObject {}).2
  let h₂ := (h₁.addObject { kind := .classValue name }).2
  have hsize₁ : (w.heap.addObject {}).1.index < h₂.objects.size := by
    simp only [h₂, h₁, Heap.addObject, Array.size_push]
    omega
  have hsize₂ : (h₁.addObject { kind := .classValue name }).1.index < h₂.objects.size := by
    simp [h₂, h₁, Heap.addObject]
  have m₃ := m₂.link hconstructor hprototype hsize₂ hown' "prototype" false false false
  have m₄ := m₃.link hprototype hconstructor (by rwa [Heap.size_setObject]) hown "constructor" true
    false true
  have hgrows : w.heap.Grows h₂ := (Heap.grows_addObject w.heap _).trans (Heap.grows_addObject h₁ _)
  refine .onHeap m₄ (hgrows.keepsFunctions.trans ?_) ⟨?_, hown', hown⟩
  · exact (Heap.keepsFunctions_withProperties hsize₂ _).trans
      (Heap.keepsFunctions_withProperties
        (Nat.lt_of_lt_of_eq hsize₁ (Heap.size_setObject _ _ _).symm) _)
  · exact congrArg₂ ClassPair.mk hconstructor hprototype

namespace Store

variable {target : Target} {d : Descriptor}

theorem alike_install (m : t.Mirrors w.heap w'.heap) (htarget : libraryCount ≤ target.object.index)
    (name : String) (hd : w.heap.Settled d) :
    Run.Alike t DecorationFault.Alike anyway w.heap ((Store.ordinary σ).install target name d w)
      ((Store.ordinary σ).install (t.target target) name (t.descriptor d) w') := by
  refine .heap_bind (.emit_bind (.emit_bind ?_))
  refine (ObjectId.alike_define m htarget name hd).mapFault fun g g' fault fault' m' h => ?_
  rw [h]
  exact .installRejected name fault' (m'.describe target.object)

theorem alike_readBack (m : t.Mirrors w.heap w'.heap) (target : ObjectId) (name : String)
    {F : ε → ε → Prop} :
    Run.Alike t F (fun h o o' => o' = o.map t.descriptor ∧ ∀ d ∈ o, h.Settled d) w.heap
      (((Store.ordinary σ).readBack target name : Action σ ε (Option Descriptor)) w)
      (((Store.ordinary σ).readBack (t.object target) name : Action σ ε (Option Descriptor)) w') :=
  .emit_bind ⟨.ok ⟨m.own? target name, m.properties target name⟩, m, .refl _⟩

end Store

theorem Placement.alike_resolve {p q : Placement} (m : t.Mirrors w.heap w'.heap)
    (hq : q.target = t.target p.target) (hown : libraryCount ≤ p.target.object.index)
    {F : ε → ε → Prop} :
    Run.Alike t F (fun _ x x' => x' = t.target x ∧ libraryCount ≤ x.object.index) w.heap
      ((p.resolve : Action σ ε Target) w) ((q.resolve : Action σ ε Target) w') :=
  .emit_bind (.pure m ⟨hq, hown⟩)

/-! The units of a class. -/

theorem ElementUnit.alike_source (caller : Caller σ) (config : Config)
    (m : t.Mirrors w.heap w'.heap) {u : ElementUnit} (hu : u.shape.Fixed) :
    Run.Alike t DecorationFault.Alike
      (fun h s s' => t.Redescribes h (s.descriptor config) (s'.descriptor config)) w.heap
      (u.source caller env w) (u.source caller env' w') := by
  unfold source
  generalize u.shape = shape at hu
  match shape with
  | .method body =>
    refine (Capability.Fixed.alike_function hu m).bind fun m' _ h => .pure m' ⟨?_, trivial⟩
    rw [h.1]
    rfl
  | .field none => exact .pure m ⟨rfl, trivial⟩
  | .field (some x) =>
    obtain ⟨l, rfl⟩ := hu x rfl
    refine .pure m ⟨?_, trivial⟩
    rw [UnitSource.descriptor, Relocation.descriptor,
      Relocation.value_of_portable l.primitive_value.portable]
  | .accessor getter setter =>
    refine (Capability.alike_functions hu.1 m).bind fun {g _ _ _} m' _ hg => ?_
    refine (Capability.alike_functions hu.2 m').bind fun {s _ _ _} m'' _ hs => .pure m'' ⟨?_, ?_⟩
    · rw [hg.1, hs.1, UnitSource.descriptor, UnitSource.descriptor, Relocation.descriptor,
        Option.map_map, Option.map_map, Option.map_map, Option.map_map]
      rfl
    · cases s with
      | none => trivial
      | some f => exact hs.2 f rfl

namespace Engine

variable {e : Engine σ} {depth : Nat} {target : Target} {pair : ClassPair} {ds : List Decorator}

theorem alike_startingDescriptor (hstore : e.store = .ordinary σ) (m : t.Mirrors w.heap w'.heap)
    (htarget : libraryCount ≤ target.object.index) (name : String) {d : Descriptor}
    (hd : w.heap.Settled d) :
    Run.Alike t DecorationFault.Alike t.Redescribes w.heap (e.startingDescriptor target name d w)
      (e.startingDescriptor (t.target target) name (t.descriptor d) w') := by
  rw [startingDescriptor, startingDescriptor, hstore]
  cases e.config.engine.descriptorSource with
  | synthesize => exact .pure m ⟨rfl, hd⟩
  | readBack =>
    refine (Store.alike_install m htarget name hd).bind fun m' keeps _ => ?_
    refine (Store.alike_readBack m' target.object name).bind fun {found _ _ _} m'' keeps' h => ?_
    obtain ⟨rfl, hfound⟩ := h
    cases found with
    | none => exact .pure m'' ⟨rfl, (hd.mono keeps).mono keeps'⟩
    | some d => exact .pure m'' ⟨rfl, hfound d rfl⟩

theorem alike_decorateFrom (hcaller : e.caller = .nested .none depth) (hstore : e.store = .ordinary σ)
    (m : t.Mirrors w.heap w'.heap) (htarget : libraryCount ≤ target.object.index) (name : String)
    (hds : ∀ d ∈ ds, d.OfLibrary) {d : Descriptor} (hd : w.heap.Settled d) :
    Run.Alike t DecorationFault.Alike anyway w.heap (e.decorateFrom target name ds d w)
      (e.decorateFrom (t.target target) name ds (t.descriptor d) w') := by
  rw [decorateFrom, decorateFrom, hcaller, hstore]
  obtain ⟨m', hnew⟩ := m.addCell hd
  refine Run.Alike.bind (R := fun _ handle handle' => handle' = t.handle handle)
    (.onHeap m' (fun _ _ hc => hc) hnew) fun {handle _ _ _} m₁ _ h => ?_
  subst h
  refine (Chain.alike_member m₁ depth htarget name handle (mem_bottomUp hds)).bind
    fun {_ _ v v'} m₂ _ _ => ?_
  refine .heap_bind ?_
  rw [m₂.content]
  exact Store.alike_install m₂ htarget name (m₂.shared handle)

theorem alike_evaluateUnit (hcaller : e.caller = .nested .none depth)
    (hstore : e.store = .ordinary σ) (m : t.Mirrors w.heap w'.heap) (hpair : pair.Own)
    {u : ElementUnit} (hu : u.Shared env env') :
    Run.Alike t DecorationFault.Alike anyway w.heap (e.evaluateUnit pair env u w)
      (e.evaluateUnit (t.pair pair) env' u w') := by
  have htarget : (Placement.classElement (t.pair pair) u.isStatic).target =
      t.target (Placement.classElement pair u.isStatic).target := by
    cases u.isStatic <;> rfl
  have hown : libraryCount ≤ (Placement.classElement pair u.isStatic).target.object.index := by
    cases u.isStatic with
    | false => exact hpair.prototype
    | true => exact hpair.constructor
  refine .emit_bind ((Placement.alike_resolve m htarget hown).bind fun {target _ _ _} m₁ _ h => ?_)
  obtain ⟨rfl, htarget⟩ := h
  refine (Decorator.alike_collect e.caller m₁ hu.decorators).bind fun {_ ds _ _} m₂ _ h => ?_
  obtain ⟨rfl, hds⟩ := h
  refine (u.alike_source e.caller e.config m₂ hu.shape).bind fun m₃ _ h => ?_
  obtain ⟨hsame, hsettled⟩ := h
  rw [hsame]
  cases ds.isEmpty with
  | true =>
    rw [if_pos rfl, if_pos rfl, hstore]
    exact Store.alike_install m₃ htarget u.name hsettled
  | false =>
    refine (alike_startingDescriptor hstore m₃ htarget u.name hsettled).bind fun m₄ _ h => ?_
    obtain ⟨rfl, hstart⟩ := h
    exact alike_decorateFrom hcaller hstore m₄ htarget u.name hds hstart

theorem alike_evaluateUnits (hcaller : e.caller = .nested .none depth)
    (hstore : e.store = .ordinary σ) (m : t.Mirrors w.heap w'.heap) (hpair : pair.Own)
    {units : List ElementUnit} (hunits : ∀ u ∈ units, u.Shared env env') :
    Run.Alike t DecorationFault.Alike anyway w.heap (e.evaluateUnits pair env units w)
      (e.evaluateUnits (t.pair pair) env' units w') := by
  induction units generalizing w w' with
  | nil => exact .pure m trivial
  | cons u rest ih =>
    obtain ⟨hu, hrest⟩ := List.forall_mem_cons.mp hunits
    exact (alike_evaluateUnit hcaller hstore m hpair hu).bind fun m' _ _ => ih m' hrest

theorem alike_decorateClass (hcaller : e.caller = .nested .none depth)
    (m : t.Mirrors w.heap w'.heap) (hpair : pair.Own) {list : List DecoratorExpr}
    (hlist : ∀ d ∈ list, d.Shared env env') :
    Run.Alike t DecorationFault.Alike anyway w.heap (e.decorateClass pair env list w)
      (e.decorateClass (t.pair pair) env' list w') := by
  refine (Decorator.alike_collect e.caller m hlist).bind fun {_ ds _ _} m₁ _ h => ?_
  obtain ⟨rfl, hds⟩ := h
  cases ds.isEmpty with
  | true => exact .pure m₁ trivial
  | false =>
    refine (Placement.alike_resolve (p := .classItself pair) (q := .classItself (t.pair pair)) m₁ rfl
      hpair.constructor).bind fun m₂ _ h => ?_
    obtain ⟨rfl, htarget⟩ := h
    rw [hcaller]
    exact (Chain.alike_classLevel m₂ depth htarget (mem_bottomUp hds)).bind fun m₃ _ _ =>
      .pure m₃ trivial

end Engine

def Relocation.Places (t : Relocation) (_ : Heap) (id id' : ObjectId) : Prop :=
  id' = t.object id ∧ libraryCount ≤ id.index

namespace Engine

variable {e : Engine σ} {depth : Nat} {target : Target}

theorem alike_evaluateClass (hcaller : e.caller = .nested .none depth)
    (hstore : e.store = .ordinary σ) (m : t.Mirrors w.heap w'.heap) {decl : ClassDecl}
    (hdecorators : ∀ d ∈ decl.decorators, d.Shared env env')
    (helements : ∀ x ∈ decl.elements, x.Shared env env') :
    Run.Alike t DecorationFault.Alike t.Places w.heap (e.evaluateClass decl env w)
      (e.evaluateClass decl env' w') := by
  have hmembers : Run.Alike t DecorationFault.Alike
      (fun _ x x' => x'.1 = t.pair x.1 ∧ x.1.Own) w.heap (e.evaluateMembers decl env w)
      (e.evaluateMembers decl env' w') := by
    refine (ClassPair.alike_create m decl.name).bind fun m₁ _ h => ?_
    obtain ⟨rfl, hpair⟩ := h
    -- Grouping does not look at the heap, so it ends alike on both sides.
    cases hunits : ElementUnit.ofElements decl.elements with
    | error fault => exact .fail m₁ (.same fault)
    | ok units =>
      refine Run.Alike.bind (R := fun _ x x' => x' = x ∧ x = units) (.pure m₁ ⟨rfl, rfl⟩)
        fun m₂ _ h => ?_
      obtain ⟨rfl, rfl⟩ := h
      refine (alike_evaluateUnits hcaller hstore m₂ hpair
        (ElementUnit.shared_ofElements hunits helements)).bind fun m₃ _ _ => ?_
      exact .pure m₃ ⟨rfl, hpair⟩
  refine .emit_bind (hmembers.bind fun {x x' _ _} m₁ _ h => ?_)
  obtain ⟨pair, units⟩ := x
  obtain ⟨pair', units'⟩ := x'
  obtain ⟨rfl, hpair⟩ : pair' = t.pair pair ∧ pair.Own := h
  refine (alike_decorateClass hcaller m₁ hpair hdecorators).bind fun m₂ _ _ => ?_
  exact .emit_bind (.pure m₂ ⟨rfl, hpair.constructor⟩)

/-! The properties of an object literal. -/

theorem alike_existingHalves (hstore : e.store = .ordinary σ) (m : t.Mirrors w.heap w'.heap)
    (target : ObjectId) (key : String) :
    Run.Alike t DecorationFault.Alike
      (fun h x x' => x' = (x.1.map t.value, x.2.map t.value) ∧
        ∀ getter enumerable configurable, h.Settled (.accessor getter x.2 enumerable configurable))
      w.heap
      (e.existingHalves target key w) (e.existingHalves (t.object target) key w') := by
  rw [existingHalves, existingHalves, hstore]
  refine (Store.alike_readBack m target key).bind fun {found _ _ _} m' _ h => ?_
  obtain ⟨rfl, hfound⟩ := h
  match found with
  | none | some (.data ..) => exact .pure m' ⟨rfl, fun _ _ _ => trivial⟩
  | some (.accessor getter none enumerable configurable) =>
    exact .pure m' ⟨rfl, fun _ _ _ => trivial⟩
  | some (.accessor getter (some setter) enumerable configurable) =>
    exact .pure m' ⟨rfl, fun _ _ _ =>
      hfound (.accessor getter (some setter) enumerable configurable) rfl⟩

theorem alike_propertyDescriptor (hstore : e.store = .ordinary σ) (m : t.Mirrors w.heap w'.heap)
    (target : ObjectId) {p : LiteralProperty} (hp : p.kind.Fixed) :
    Run.Alike t DecorationFault.Alike t.Redescribes w.heap
      (e.propertyDescriptor target env p w) (e.propertyDescriptor (t.object target) env' p w') := by
  unfold propertyDescriptor
  generalize p.kind = kind at hp
  cases kind with
  | init x =>
    obtain ⟨l, rfl⟩ := hp
    refine .pure m ⟨?_, trivial⟩
    rw [Descriptor.ordinary, Relocation.descriptor,
      Relocation.value_of_portable l.primitive_value.portable]
  | method body =>
    refine (Capability.Fixed.alike_function hp m).bind fun m' _ h => .pure m' ⟨?_, trivial⟩
    rw [h.1]
    rfl
  | getter body =>
    refine (alike_existingHalves hstore m target p.key).bind fun m₁ _ h => ?_
    obtain ⟨rfl, hsettled⟩ := h
    refine (Capability.Fixed.alike_function hp m₁).bind fun m₂ keeps h =>
      .pure m₂ ⟨?_, (hsettled _ true true).mono keeps⟩
    rw [h.1]
    rfl
  | setter body =>
    refine (alike_existingHalves hstore m target p.key).bind fun m₁ _ h => ?_
    obtain ⟨rfl, -⟩ := h
    refine (Capability.Fixed.alike_function hp m₁).bind fun m₂ _ h => .pure m₂ ⟨?_, h.2⟩
    rw [h.1]
    rfl

theorem alike_decorateProperty (hcaller : e.caller = .nested .none depth)
    (hstore : e.store = .ordinary σ) (m : t.Mirrors w.heap w'.heap)
    (htarget : libraryCount ≤ target.object.index) {p : LiteralProperty}
    (hp : ∀ d ∈ p.decorators, d.Shared env env') :
    Run.Alike t DecorationFault.Alike anyway w.heap (e.decorateProperty target env p w)
      (e.decorateProperty (t.target target) env' p w') := by
  refine .emit_bind ?_
  cases e.config.engine.literalDecorators with
  | false => exact .fail m (.same _)
  | true =>
    refine (Decorator.alike_collect e.caller m hp).bind fun {_ ds _ _} m₁ _ h => ?_
    obtain ⟨rfl, hds⟩ := h
    rw [hcaller, hstore]
    refine (Chain.alike_fallback m₁ depth htarget p.key rfl (mem_bottomUp hds)).bind
      fun {result _ _ _} m₂ _ h => ?_
    obtain ⟨rfl, hresult⟩ := h
    rw [Relocation.isUndefined_value]
    cases result.isUndefined with
    | true => exact .emit_bind (.pure m₂ trivial)
    | false =>
      refine ((Descriptor.alike_ofValue _ m₂ hresult).mapFault
        fun g g' fault fault' m' h => ?_).bind fun m₃ _ h => ?_
      · rw [h]
        exact .installRejected p.key fault' (m'.describe target.object)
      · obtain ⟨rfl, hd⟩ := h
        exact Store.alike_install m₃ htarget p.key hd

theorem alike_evaluateProperties (hcaller : e.caller = .nested .none depth)
    (hstore : e.store = .ordinary σ) (m : t.Mirrors w.heap w'.heap)
    (htarget : libraryCount ≤ target.object.index) {list : List LiteralProperty}
    (hlist : ∀ p ∈ list, p.Shared env env') :
    Run.Alike t DecorationFault.Alike anyway w.heap (e.evaluateProperties target env list w)
      (e.evaluateProperties (t.target target) env' list w') := by
  induction list generalizing w w' with
  | nil => exact .pure m trivial
  | cons p rest ih =>
    obtain ⟨hp, hrest⟩ := List.forall_mem_cons.mp hlist
    refine Run.Alike.bind (R := anyway) ?_ fun m' _ _ => ih m' hrest
    unfold evaluateProperty
    cases p.decorators.isEmpty with
    | true =>
      refine (alike_propertyDescriptor hstore m target.object hp.kind).bind fun m' _ h => ?_
      obtain ⟨rfl, hd⟩ := h
      rw [hstore]
      exact Store.alike_install m' htarget p.key hd
    | false => exact alike_decorateProperty hcaller hstore m htarget hp.decorators

theorem alike_evaluateLiteral (hcaller : e.caller = .nested .none depth)
    (hstore : e.store = .ordinary σ) (m : t.Mirrors w.heap w'.heap) {literal : ObjectLiteral}
    (hliteral : ∀ p ∈ literal.properties, p.Shared env env') :
    Run.Alike t DecorationFault.Alike t.Places w.heap (e.evaluateLiteral literal env w)
      (e.evaluateLiteral literal env' w') := by
  obtain ⟨m₁, hnew, hown⟩ := m.addObject (o := {}) rfl rfl
  refine .emit_bind ?_
  refine Run.Alike.bind (R := t.Places)
    (.onHeap m₁ (Heap.grows_addObject _ _).keepsFunctions ⟨hnew, hown⟩)
    fun {object _ _ _} m₂ _ h => ?_
  obtain ⟨rfl, hown⟩ := h
  refine (Placement.alike_resolve (p := .literalProperty object)
    (q := .literalProperty (t.object object)) m₂ rfl hown).bind fun m₃ _ h => ?_
  obtain ⟨rfl, htarget⟩ := h
  refine (alike_evaluateProperties hcaller hstore m₃ htarget hliteral).bind fun m₄ _ _ => ?_
  exact .pure m₄ ⟨rfl, hown⟩

theorem alike_declare (hcaller : e.caller = .nested .none depth) (hstore : e.store = .ordinary σ)
    (m : t.Mirrors w.heap w'.heap) {d : Declaration} (hd : d.Shared env env') :
    Run.Alike t DecorationFault.Alike
      (fun h x x' => t.Places h x.1 x'.1 ∧ x.2 = env.bind d.name (.object x.1) ∧
        x'.2 = env'.bind d.name (.object x'.1)) w.heap (e.declare env d w) (e.declare env' d w') := by
  cases d with
  | ofClass decl =>
    exact (alike_evaluateClass hcaller hstore m hd.1 hd.2).bind fun m' _ h =>
      .pure m' ⟨h, rfl, rfl⟩
  | ofLiteral name literal =>
    exact (alike_evaluateLiteral hcaller hstore m hd).bind fun m' _ h => .pure m' ⟨h, rfl, rfl⟩

end Engine
end Decoration
