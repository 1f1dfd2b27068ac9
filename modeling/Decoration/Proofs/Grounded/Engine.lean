import Decoration.Engine.Literal
import Decoration.Proofs.Constants
import Decoration.Proofs.Grounded.Library
import Decoration.Proofs.Slotwise

/-! The evaluation of classes and literals keeps a heap grounded, whatever their decorators do, if calls
do. -/

namespace Decoration

open Decoration.Action

variable {σ ε : Type} {n m : Nat} {caller : Caller σ} {env : Environment} {target : Target}
  {name : String} {d : Descriptor}

structure Decorator.Within (n : Nat) (d : Decorator) : Prop where
  capability : d.capability.Within n
  extra : ∀ v ∈ d.extra, v.Within n

namespace Decorator

theorem Within.mono {d : Decorator} (h : d.Within n) (hle : n ≤ m) : d.Within m :=
  ⟨h.capability.mono hle, fun v hv => (h.extra v hv).mono hle⟩

theorem monotone_within : Monotone Decorator.Within := fun _ _ hle _ hd => hd.mono hle

theorem grounds_collectOne (hc : caller.Grounds) (henv : env.Within n) (x : DecoratorExpr) :
    (collectOne caller env x).Grounds n Within := by
  apply ((x.callee.grounds_evaluate hc henv).mapFault _).bind
  intro k callee hk _
  apply Grounds.heap_bind
  intro h g hh
  cases hcapability : h.capability? callee with
  | none => exact Grounds.fail _
  | some c =>
    have henv' := henv.mono (Nat.le_trans hk hh)
    have hextra : (x.arguments.mapM (Expr.evaluate caller env)).Grounds h.objects.size
        fun k extra => ∀ v ∈ extra, Value.Within k v :=
      Grounds.mapM Value.monotone_within fun a _ => Expr.grounds_evaluate hc henv' a
    apply (hextra.mapFault _).bind
    intro k extra hk hextra
    apply (Grounds.report _).bind
    intro l _ hl _
    refine Grounds.pure fun m hm => ⟨(g.call hcapability).mono (by omega), fun v hv => ?_⟩
    exact (hextra v hv).mono (by omega)

theorem grounds_collect (hc : caller.Grounds) (henv : env.Within n) (list : List DecoratorExpr) :
    (collect caller env list).Grounds n fun k ds => ∀ d ∈ ds, Within k d :=
  Grounds.mapM monotone_within fun x _ => grounds_collectOne hc henv x

theorem grounds_construct (hc : caller.Grounds) {d : Decorator} (hd : d.Within n) (target : Target)
    (name : Option String) {arguments : List Value} (harguments : ∀ v ∈ arguments, v.Within n) :
    (d.construct caller target name arguments).Grounds n Value.Within := by
  have hall : ∀ v ∈ arguments ++ d.extra, v.Within n :=
    List.forall_mem_append.mpr ⟨harguments, hd.extra⟩
  apply (Grounds.emit _).bind
  intro k _ hk _
  apply Grounds.mapFault
  exact hc k d.capability .construct _ (hd.capability.mono hk) (Value.within_of_object? rfl)
    fun v hv => (hall v hv).mono hk

end Decorator

namespace Chain

variable {list : List (Decorator × Nat)}

theorem grounds_member (hc : caller.Grounds) (htarget : target.object.Within n) (name : String)
    (handle : Handle) (hlist : ∀ d ∈ list, d.1.Within n) :
    (member caller target name handle list).Grounds n Free := by
  induction list generalizing n with
  | nil => exact Grounds.pure fun _ _ => trivial
  | cons first rest ih =>
    obtain ⟨hfirst, hrest⟩ := List.forall_mem_cons.mp hlist
    have harguments (k : Nat) (hk : n ≤ k) :
        ∀ v ∈ [target.value, .string name, .descriptor handle], Value.Within k v := by
      have hvalue : target.value.Within k := Value.within_object (htarget.mono hk)
      simp [hvalue]
    -- The decorators before this one may have made objects: the bound rises from turn to turn.
    apply Grounds.heap_bind
    intro h _ hh
    apply (Grounds.emit _).bind
    intro k₁ _ h₁ _
    apply (Grounds.report _).bind
    intro k₂ _ h₂ _
    have hconstruct := first.1.grounds_construct hc (hfirst.mono (by omega)) target (some name)
      (harguments k₂ (by omega))
    apply hconstruct.bind
    intro k₃ _ h₃ _
    exact ih (htarget.mono (by omega)) fun d hd => (hrest d hd).mono (by omega)

theorem grounds_classLevel (hc : caller.Grounds) (htarget : target.object.Within n)
    (hlist : ∀ d ∈ list, d.1.Within n) : (classLevel caller target list).Grounds n Free := by
  induction list generalizing n with
  | nil => exact Grounds.pure fun _ _ => trivial
  | cons first rest ih =>
    obtain ⟨hfirst, hrest⟩ := List.forall_mem_cons.mp hlist
    have harguments (k : Nat) (hk : n ≤ k) : ∀ v ∈ [target.value], Value.Within k v :=
      List.forall_mem_singleton.mpr (Value.within_object (htarget.mono hk))
    apply (Grounds.emit _).bind
    intro k₁ _ h₁ _
    apply (Grounds.report _).bind
    intro k₂ _ h₂ _
    have hconstruct := first.1.grounds_construct hc (hfirst.mono (by omega)) target none
      (harguments k₂ (by omega))
    apply hconstruct.bind
    intro k₃ _ h₃ _
    exact ih (htarget.mono (by omega)) fun d hd => (hrest d hd).mono (by omega)

theorem grounds_fallback (hc : caller.Grounds) (htarget : target.object.Within n) (name : String)
    {running : Value} (hrunning : running.Within n) (hlist : ∀ d ∈ list, d.1.Within n) :
    (fallback caller target name running list).Grounds n Value.Within := by
  induction list generalizing n running with
  | nil => exact Grounds.pure fun _ hk => hrunning.mono hk
  | cons first rest ih =>
    obtain ⟨hfirst, hrest⟩ := List.forall_mem_cons.mp hlist
    have harguments (k : Nat) (hk : n ≤ k) :
        ∀ v ∈ [target.value, .string name, running], Value.Within k v := by
      have hvalue : target.value.Within k := Value.within_object (htarget.mono hk)
      simp [hvalue, hrunning.mono hk]
    apply (Grounds.emit _).bind
    intro k₁ _ h₁ _
    apply (Grounds.report _).bind
    intro k₂ _ h₂ _
    have hconstruct := first.1.grounds_construct hc (hfirst.mono (by omega)) target (some name)
      (harguments k₂ (by omega))
    apply hconstruct.bind
    intro k₃ result h₃ hresult
    have hnext : (if result.isTruthy then result else running).Within k₃ := by
      split
      · exact hresult
      · exact hrunning.mono (by omega)
    exact ih (htarget.mono (by omega)) hnext fun d hd => (hrest d hd).mono (by omega)

end Chain

theorem Placement.grounds_resolve {p : Placement} (hp : p.target.object.Within n) :
    (p.resolve : Action σ ε Target).Grounds n fun k t => t.object.Within k :=
  (Grounds.report _).bind fun _ _ hk _ =>
    Grounds.pure fun _ hl => hp.mono (Nat.le_trans hk hl)

namespace Store

theorem grounds_install (target : Target) (name : String) (hd : d.Within n) :
    ((Store.ordinary σ).install target name d).Grounds n Free :=
  Grounds.heap_bind fun _ _ hh => (Grounds.report _).bind fun _ _ h₁ _ =>
    (Grounds.emit _).bind fun _ _ h₂ _ =>
    (target.object.grounds_define name (hd.mono (by omega))).mapFault _

theorem grounds_readBack (target : ObjectId) (name : String) :
    ((Store.ordinary σ).readBack target name : Action σ ε (Option Descriptor)).Grounds n
      fun k found => ∀ d ∈ found, Descriptor.Within k d := by
  apply (Grounds.emit _).bind
  intro k _ _ _ w hw _
  refine Grounds.still hw fun found hfound d hd => ?_
  cases hfound
  exact hw.own target name d hd

end Store

namespace ElementUnit

theorem grounds_half {half : Option Capability} (hhalf : ∀ c ∈ half, c.Within n) :
    (half.mapM Capability.function : Action σ ε (Option ObjectId)).Grounds n
      fun k f => ∀ v ∈ f.map Value.object, v.Within k := by
  have hmade : (half.mapM Capability.function : Action σ ε (Option ObjectId)).Grounds n
      fun k f => ∀ id ∈ f, ObjectId.Within k id :=
    Grounds.mapM_option (fun _ _ hle _ hid => hid.mono hle) fun c hc =>
      Capability.grounds_function (hhalf c hc)
  refine hmade.weaken fun k f hf v hv => ?_
  obtain ⟨id, hid, rfl⟩ := Option.map_eq_some_iff.mp hv
  exact Value.within_object (hf id hid)

theorem grounds_source (hc : caller.Grounds) (henv : env.Within n) {u : ElementUnit}
    (hu : ∀ kind ∈ u.shape.kinds, kind.Within n) (config : Config) :
    (u.source caller env).Grounds n fun k made => (made.descriptor config).Within k := by
  unfold source
  split
  · rename_i body hshape
    have hbody : body.Within n := hu (.method body) (by simp [hshape, UnitShape.kinds])
    apply (Capability.grounds_function hbody).bind
    intro k f _ hf
    exact Grounds.pure fun l hl => Descriptor.within_data.mpr (Value.within_object (hf.mono hl))
  · exact Grounds.pure fun _ _ => Descriptor.within_data.mpr (Value.within_of_object? rfl)
  · rename_i initializer _
    apply ((initializer.grounds_evaluate hc henv).mapFault _).bind
    intro k v _ hv
    exact Grounds.pure fun l hl => Descriptor.within_data.mpr (hv.mono hl)
  · rename_i getter setter hshape
    have hgetter : ∀ c ∈ getter, c.Within n := fun c hc => hu (.getter c) (by
      rw [hshape]
      exact UnitShape.mem_kinds_accessor.mpr (.inl ⟨c, hc, rfl⟩))
    have hsetter : ∀ c ∈ setter, c.Within n := fun c hc => hu (.setter c) (by
      rw [hshape]
      exact UnitShape.mem_kinds_accessor.mpr (.inr ⟨c, hc, rfl⟩))
    apply (grounds_half hgetter).bind
    intro k g hk hg
    apply (grounds_half fun c hc => (hsetter c hc).mono hk).bind
    intro l s hl hs
    refine Grounds.pure fun m hm => Descriptor.within_accessor.mpr ⟨fun v hv => ?_, fun v hv => ?_⟩
    · exact (hg v hv).mono (by omega)
    · exact (hs v hv).mono hm

end ElementUnit

structure ClassPair.Within (n : Nat) (pair : ClassPair) : Prop where
  constructor : pair.constructor.Within n
  prototype : pair.prototype.Within n

namespace ClassPair

variable {pair : ClassPair}

theorem Within.mono (h : pair.Within n) (hle : n ≤ m) : pair.Within m :=
  ⟨h.constructor.mono hle, h.prototype.mono hle⟩

theorem Within.side (h : pair.Within n) (isStatic : Bool) : (pair.side isStatic).Within n := by
  cases isStatic with
  | true => exact h.constructor
  | false => exact h.prototype

theorem grounds_create (name : String) :
    (ClassPair.create name : Action σ ε ClassPair).Grounds n Within := by
  refine Grounds.onHeap fun h g _ => ?_
  let prototype := (h.addObject {}).1
  let h₁ := (h.addObject {}).2
  let constructor := (h₁.addObject { kind := .classValue name }).1
  let h₂ := (h₁.addObject { kind := .classValue name }).2
  let h₃ := h₂.setObject constructor ((h₂.object constructor).insert "prototype"
    (.data (.object prototype) false false false))
  let h₄ := h₃.setObject prototype ((h₃.object prototype).insert "constructor"
    (.data (.object constructor) true false true))
  have hsize : h₂.objects.size = h.objects.size + 2 := by simp [h₂, h₁, Heap.addObject]
  have hsize' : h₃.objects.size = h.objects.size + 2 := by rw [Heap.size_setObject, hsize]
  have hsize'' : h₄.objects.size = h.objects.size + 2 := by rw [Heap.size_setObject, hsize']
  have hprototype : prototype.Within (h.objects.size + 2) := by
    simp [ObjectId.Within, prototype, Heap.addObject]
  have hconstructor : constructor.Within (h.objects.size + 2) := by
    simp [ObjectId.Within, constructor, h₁, Heap.addObject]
  have first : h₁.Grounded := g.addObject_alone rfl rfl rfl
  have second : h₂.Grounded := first.addObject_alone rfl rfl rfl
  have link : h₃.Grounded :=
    second.insert (Descriptor.within_data.mpr (Value.within_object (hsize.symm ▸ hprototype)))
  have back : h₄.Grounded :=
    link.insert (Descriptor.within_data.mpr (Value.within_object (hsize'.symm ▸ hconstructor)))
  show h₄.Grounded ∧ h.objects.size ≤ h₄.objects.size ∧
    Within h₄.objects.size { constructor, prototype }
  rw [hsize'']
  exact ⟨back, Nat.le_add_right _ _, hconstructor, hprototype⟩

end ClassPair

theorem Engine.forall_within_bottomUp {list : List Decorator} (h : ∀ d ∈ list, d.Within n) (hle : n ≤ m) :
    ∀ d ∈ bottomUp list, d.1.Within m :=
  Engine.forall_bottomUp fun d hd => (h d hd).mono hle

def ClassDecl.Within (n : Nat) (decl : ClassDecl) : Prop := ∀ e ∈ decl.elements, e.kind.Within n

def ElementUnit.Within (n : Nat) (u : ElementUnit) : Prop := ∀ kind ∈ u.shape.kinds, kind.Within n

theorem ElementKind.Within.mono {kind : ElementKind} (h : kind.Within n) (hle : n ≤ m) :
    kind.Within m := by
  cases kind with
  | field => trivial
  | _ => exact Capability.Within.mono h hle

theorem ElementUnit.Within.mono {u : ElementUnit} (h : u.Within n) (hle : n ≤ m) : u.Within m :=
  fun kind hkind => (h kind hkind).mono hle

theorem ClassDecl.Within.units {decl : ClassDecl} {units : List ElementUnit} (h : decl.Within n)
    (hunits : ElementUnit.ofElements decl.elements = .ok units) : ∀ u ∈ units, u.Within n := by
  refine ElementUnit.forall_ofElements hunits (fun e he kind hkind => ?_)
    fun e he u shape hu hshape kind hkind => ?_
  · have hsame : kind = e.kind := by
      rw [ClassElement.unit] at hkind
      cases hk : e.kind <;> simpa [UnitShape.kinds, hk] using hkind
    rw [hsame]
    exact h e he
  · rcases (ElementUnit.mem_kinds_completed? hshape).mp hkind with hkind | rfl
    · exact hu kind hkind
    · exact h e he

namespace Engine

variable {e : Engine σ}

theorem grounds_decorateFrom (hc : e.caller.Grounds) (hs : e.store = Store.ordinary σ)
    (htarget : target.object.Within n) (name : String) {decorators : List Decorator}
    (hdecorators : ∀ d ∈ decorators, d.Within n) (hd : d.Within n) :
    (e.decorateFrom target name decorators d).Grounds n Free := by
  apply (Grounds.addCell hd).bind
  intro k handle hk _
  have hchain := forall_within_bottomUp hdecorators hk
  apply (Chain.grounds_member hc (htarget.mono hk) name handle hchain).bind
  intro l _ _ _
  apply Grounds.heap_bind
  intro h g _
  rw [hs]
  exact Store.grounds_install target name (g.content handle)

theorem grounds_startingDescriptor (hs : e.store = Store.ordinary σ) (target : Target) (name : String)
    (hd : d.Within n) :
    (e.startingDescriptor target name d).Grounds n Descriptor.Within := by
  unfold startingDescriptor
  rw [hs]
  split
  · exact Grounds.pure fun k hk => hd.mono hk
  · apply (Store.grounds_install target name hd).bind
    intro k₁ _ h₁ _
    apply (Store.grounds_readBack target.object name).bind
    intro k₂ found h₂ hfound
    refine Grounds.pure fun k hk => ?_
    cases found with
    | none => exact hd.mono (by omega)
    | some back => exact (hfound back rfl).mono hk

theorem grounds_evaluateUnit (hc : e.caller.Grounds) (hs : e.store = Store.ordinary σ)
    {pair : ClassPair} (hpair : pair.Within n) (henv : env.Within n) {u : ElementUnit}
    (hu : u.Within n) : (e.evaluateUnit pair env u).Grounds n Free := by
  apply (Grounds.report _).bind
  intro k₁ _ h₁ _
  apply (Placement.grounds_resolve ((hpair.side u.isStatic).mono h₁)).bind
  intro k₂ target h₂ htarget
  apply (Decorator.grounds_collect hc (henv.mono (by omega)) u.decorators).bind
  intro k₃ decorators h₃ hdecorators
  have hmade := ElementUnit.grounds_source hc (henv.mono (by omega : n ≤ k₃)) (hu.mono (by omega)) e.config
  apply hmade.bind
  intro k₄ source h₄ hsource
  dsimp only
  split
  · rw [hs]
    exact Store.grounds_install target u.name hsource
  · apply (grounds_startingDescriptor hs target u.name hsource).bind
    intro k₅ start h₅ hstart
    exact grounds_decorateFrom hc hs (htarget.mono (by omega)) u.name
      (fun d hd => (hdecorators d hd).mono (by omega)) hstart

theorem grounds_evaluateUnits (hc : e.caller.Grounds) (hs : e.store = Store.ordinary σ)
    {pair : ClassPair} (hpair : pair.Within n) (henv : env.Within n) {units : List ElementUnit}
    (hunits : ∀ u ∈ units, u.Within n) : (e.evaluateUnits pair env units).Grounds n Free := by
  induction units generalizing n with
  | nil => exact Grounds.pure fun _ _ => trivial
  | cons u rest ih =>
    obtain ⟨hu, hrest⟩ := List.forall_mem_cons.mp hunits
    apply (grounds_evaluateUnit hc hs hpair henv hu).bind
    intro k _ hk _
    exact ih (hpair.mono hk) (henv.mono hk) fun u hu => (hrest u hu).mono hk

theorem grounds_decorateClass (hc : e.caller.Grounds) {pair : ClassPair} (hpair : pair.Within n)
    (henv : env.Within n) (list : List DecoratorExpr) :
    (e.decorateClass pair env list).Grounds n Free := by
  apply (Decorator.grounds_collect hc henv list).bind
  intro k₁ decorators h₁ hdecorators
  split
  · exact Grounds.pure fun _ _ => trivial
  · have hresolve : ((Placement.classItself pair).resolve : Action σ DecorationFault Target).Grounds k₁
        fun k t => t.object.Within k := Placement.grounds_resolve (hpair.constructor.mono h₁)
    apply hresolve.bind
    intro k₂ target h₂ htarget
    apply (Chain.grounds_classLevel hc htarget (forall_within_bottomUp hdecorators h₂)).bind
    intro k₃ _ _ _
    exact Grounds.pure fun _ _ => trivial

theorem grounds_evaluateMembers (hc : e.caller.Grounds) (hs : e.store = Store.ordinary σ)
    {decl : ClassDecl} (hdecl : decl.Within n) (henv : env.Within n) :
    (e.evaluateMembers decl env).Grounds n fun k members => ClassPair.Within k members.1 := by
  apply (ClassPair.grounds_create decl.name).bind
  intro k₁ pair h₁ hpair
  -- The bodies were written before the evaluation began, so they hold nothing that it made.
  have hplan : (ofExcept (ElementUnit.ofElements decl.elements) :
      Action σ DecorationFault (List ElementUnit)).Grounds k₁ fun l units =>
        ∀ u ∈ units, ElementUnit.Within l u :=
    Grounds.ofExcept fun units hunits l hl u hu => (hdecl.units hunits u hu).mono (by omega)
  apply hplan.bind
  intro k₂ units h₂ hunits
  apply (grounds_evaluateUnits hc hs (hpair.mono h₂) (henv.mono (by omega)) hunits).bind
  intro k₃ _ h₃ _
  exact Grounds.pure fun l hl => hpair.mono (by omega)

theorem grounds_evaluateClass (hc : e.caller.Grounds) (hs : e.store = Store.ordinary σ)
    {decl : ClassDecl} (hdecl : decl.Within n) (henv : env.Within n) :
    (e.evaluateClass decl env).Grounds n ObjectId.Within := by
  apply (Grounds.report _).bind
  intro k₁ _ h₁ _
  apply ((grounds_evaluateMembers hc hs hdecl henv).mono h₁).bind
  intro k₂ members h₂ hpair
  apply (grounds_decorateClass hc hpair (henv.mono (by omega)) decl.decorators).bind
  intro k₃ decorators h₃ _
  apply (Grounds.report _).bind
  intro k₄ _ h₄ _
  exact Grounds.pure fun l hl => hpair.constructor.mono (by omega)

theorem grounds_existingHalves (hs : e.store = Store.ordinary σ) (target : ObjectId) (key : String) :
    (e.existingHalves target key).Grounds n fun k halves =>
      (∀ v ∈ halves.1, Value.Within k v) ∧ ∀ v ∈ halves.2, Value.Within k v := by
  unfold existingHalves
  rw [hs]
  apply (Store.grounds_readBack target key).bind
  intro k₁ found _ hfound
  split
  · rename_i getter setter _ _ _
    obtain ⟨hgetter, hsetter⟩ := Descriptor.within_accessor.mp (hfound _ rfl)
    exact Grounds.pure fun k hk =>
      ⟨fun v hv => (hgetter v hv).mono hk, fun v hv => (hsetter v hv).mono hk⟩
  · exact Grounds.pure fun _ _ => ⟨nofun, nofun⟩

end Engine

def PropertyKind.Within (n : Nat) : PropertyKind → Prop
  | method body | getter body | setter body => body.Within n
  | init _ => True

theorem PropertyKind.Within.mono {kind : PropertyKind} (h : kind.Within n) (hle : n ≤ m) :
    kind.Within m := by
  cases kind with
  | init => trivial
  | _ => exact Capability.Within.mono h hle

def ObjectLiteral.Within (n : Nat) (literal : ObjectLiteral) : Prop :=
  ∀ p ∈ literal.properties, p.kind.Within n

namespace Engine

variable {e : Engine σ}

theorem grounds_propertyDescriptor (hc : e.caller.Grounds) (hs : e.store = Store.ordinary σ)
    (target : ObjectId) (henv : env.Within n) {p : LiteralProperty} (hp : p.kind.Within n) :
    (e.propertyDescriptor target env p).Grounds n Descriptor.Within := by
  unfold propertyDescriptor
  split <;> rename_i hkind <;> rw [hkind] at hp
  · apply ((Expr.grounds_evaluate hc henv _).mapFault _).bind
    intro k v _ hv
    exact Grounds.pure fun l hl => Descriptor.within_data.mpr (hv.mono hl)
  · apply (Capability.grounds_function hp).bind
    intro k f _ hf
    exact Grounds.pure fun l hl => Descriptor.within_data.mpr (Value.within_object (hf.mono hl))
  · apply (grounds_existingHalves hs target p.key).bind
    intro k₁ halves h₁ hhalves
    apply (Capability.grounds_function (Capability.Within.mono hp h₁)).bind
    intro k₂ f h₂ hf
    refine Grounds.pure fun k hk => Descriptor.within_accessor.mpr ⟨fun v hv => ?_, fun v hv => ?_⟩
    · cases hv
      exact Value.within_object (hf.mono hk)
    · exact (hhalves.2 v hv).mono (by omega)
  · apply (grounds_existingHalves hs target p.key).bind
    intro k₁ halves h₁ hhalves
    apply (Capability.grounds_function (Capability.Within.mono hp h₁)).bind
    intro k₂ f h₂ hf
    refine Grounds.pure fun k hk => Descriptor.within_accessor.mpr ⟨fun v hv => ?_, fun v hv => ?_⟩
    · exact (hhalves.1 v hv).mono (by omega)
    · cases hv
      exact Value.within_object (hf.mono hk)

theorem grounds_decorateProperty (hc : e.caller.Grounds) (hs : e.store = Store.ordinary σ)
    (htarget : target.object.Within n) (henv : env.Within n) (p : LiteralProperty) :
    (e.decorateProperty target env p).Grounds n Free := by
  apply (Grounds.report _).bind
  intro k₁ _ h₁ _
  apply Grounds.checked
  intro _
  apply (Decorator.grounds_collect hc (henv.mono h₁) p.decorators).bind
  intro k₂ decorators h₂ hdecorators
  have hchain := forall_within_bottomUp hdecorators (Nat.le_refl k₂)
  apply (Chain.grounds_fallback hc (htarget.mono (by omega)) p.key (Value.within_of_object? rfl)
    hchain).bind
  intro k₃ result h₃ hresult
  split
  · exact Grounds.report _
  · rw [hs]
    apply ((Descriptor.grounds_ofValue hc hresult).mapFault _).bind
    intro k₄ d _ hd
    exact Store.grounds_install target p.key hd

theorem grounds_evaluateProperties (hc : e.caller.Grounds) (hs : e.store = Store.ordinary σ)
    (htarget : target.object.Within n) (henv : env.Within n) {properties : List LiteralProperty}
    (hproperties : ∀ p ∈ properties, p.kind.Within n) :
    (e.evaluateProperties target env properties).Grounds n Free := by
  induction properties generalizing n with
  | nil => exact Grounds.pure fun _ _ => trivial
  | cons p rest ih =>
    obtain ⟨hp, hrest⟩ := List.forall_mem_cons.mp hproperties
    refine Grounds.bind (Q := Free) ?_ fun k _ hk _ =>
      ih (htarget.mono hk) (henv.mono hk) fun p hp => (hrest p hp).mono hk
    unfold evaluateProperty
    split
    · rw [hs]
      apply (grounds_propertyDescriptor hc hs target.object henv hp).bind
      intro k d _ hd
      exact Store.grounds_install target p.key hd
    · exact grounds_decorateProperty hc hs htarget henv p

theorem grounds_evaluateLiteral (hc : e.caller.Grounds) (hs : e.store = Store.ordinary σ)
    {literal : ObjectLiteral} (hliteral : literal.Within n) (henv : env.Within n) :
    (e.evaluateLiteral literal env).Grounds n ObjectId.Within := by
  have hmade (k : Nat) : (onHeap (·.addObject {}) : Action σ DecorationFault ObjectId).Grounds k
      ObjectId.Within := Grounds.addObject rfl nofun nofun
  apply (Grounds.report _).bind
  intro k₁ _ h₁ _
  apply (hmade k₁).bind
  intro k₂ object h₂ hobject
  apply (Placement.grounds_resolve hobject).bind
  intro k₃ target h₃ htarget
  have hproperties : ∀ p ∈ literal.properties, p.kind.Within k₃ :=
    fun p hp => (hliteral p hp).mono (by omega)
  apply (grounds_evaluateProperties hc hs htarget (henv.mono (by omega)) hproperties).bind
  intro k₄ _ h₄ _
  exact Grounds.pure fun l hl => hobject.mono (by omega)

end Engine
end Decoration
