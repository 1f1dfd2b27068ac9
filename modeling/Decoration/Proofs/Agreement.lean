import Decoration.Proofs.Discreet
import Decoration.Proofs.Evolution
import Decoration.Proofs.Success.Engine

/-! The two sources of starting descriptors. Reading back defines the synthesized descriptor first and
the chain's result over it, so it asks for two definitions where synthesizing asks for one. With
decorators that are discreet where they are constructed, the first definition is seen by the second
alone. -/

namespace Decoration

open Decoration.Action

variable {σ ε α : Type}

def Heap.Keeps (h h' : Heap) : Prop := h.objects.size ≤ h'.objects.size

instance : Heap.Coarse Heap.Keeps := ⟨fun s => s.evolves.size⟩

theorem Action.Stepwise.keeps {x : Action σ ε α} (hx : x.Stepwise Heap.Keeps) {w w' : World σ} {a : α}
    (h : x.Yields w a w') : w.heap.objects.size ≤ w'.heap.objects.size := by
  have hpairs := hx.pairwise_history (R := Heap.Keeps) (fun _ => Nat.le_refl _)
    (fun _ _ _ => Nat.le_trans) (fun _ _ h => h) w
  have hlast : (x w).world.heap ∈ (x w).events.map (·.heap) ++ [(x w).world.heap] := by simp
  have hkeeps := (List.pairwise_cons.mp hpairs).1 _ hlast
  rwa [h.2] at hkeeps

def Engine.ordinary (caller : Caller σ) (config : Config) (source : DescriptorSource) : Engine σ where
  caller := caller
  store := .ordinary σ
  config := { config with engine := { config.engine with descriptorSource := source } }

namespace Engine

variable {caller : Caller σ} {config : Config} {source : DescriptorSource} {target : Target}
  {name : String} {ds : List Decorator} {start d : Descriptor} {w w' : World σ}

/-- Decorated from this world, a unit has the decorator constructed with the handle in that world. -/
def Constructs (e : Engine σ) (target : Target) (name : String) (ds : List Decorator)
    (synthesized : Descriptor) (w : World σ) (handle : Handle) (d : Decorator) (v : World σ) : Prop :=
  ∃ start w₁ w₂, (e.startingDescriptor target name synthesized).Yields w start w₁ ∧
    (onHeap (·.addCell start) : Action σ DecorationFault Handle).Yields w₁ handle w₂ ∧
    Chain.Constructs e.caller target name handle ds.zipIdx.reverse w₂ d v

theorem Constructs.mem {e : Engine σ} {handle : Handle} {x : Decorator} {v : World σ}
    (h : e.Constructs target name ds d w handle x v) : x ∈ ds := by
  obtain ⟨start, w₁, w₂, -, -, hx⟩ := h
  obtain ⟨position, hmem⟩ := hx.mem
  exact List.fst_mem_of_mem_zipIdx (List.mem_reverse.mp hmem)

/-- A discreet chain runs over other properties of its target as well, and if these are the same but for
the slot it ends in the same world. -/
theorem decorateFrom_withProperties
    (hd : ∀ handle w₁ x v,
      (onHeap (·.addCell start) : Action σ DecorationFault Handle).Yields w handle w₁ →
      Chain.Constructs caller target name handle ds.zipIdx.reverse w₁ x v →
      x.Discreet caller target name handle v)
    (hid : target.object.index < w.heap.objects.size)
    (h : ((ordinary caller config source).decorateFrom target name ds start).Yields w () w') :
    ∃ final, (w.heap.object target.object).Accepts name final ∧
      ∀ p, ({ w.heap.object target.object with properties := p } : Object).Accepts name final →
        p.insert name final = (w.heap.object target.object).properties.insert name final →
        ((ordinary caller config source).decorateFrom target name ds start).Yields
          (w.withProperties target.object p) () w' := by
  -- The handle is made on the way to `w₁`, the chain ends in `w₂`, and the definition in `w'`.
  obtain ⟨handle, w₁, hcell, h⟩ := yields_bind.mp h
  have hdiscreet := discreet_applyMemberChain fun x v => hd handle w₁ x v hcell
  obtain ⟨rfl, hw₁⟩ := yields_onHeap.mp hcell
  obtain ⟨⟨⟩, w₂, hchain, h⟩ := yields_bind.mp h
  obtain ⟨haccepts, rfl⟩ := Store.yields_install.mp (yields_heap_bind.mp h)
  have hobject₁ : w₁.heap.object target.object = w.heap.object target.object := by
    rw [← hw₁]
    rfl
  have hid₁ : target.object.index < w₁.heap.objects.size := by
    rw [← hw₁]
    exact hid
  obtain ⟨hid₂, hsame, hframe⟩ := hdiscreet hid₁ () w₂ hchain
  have hobject : w₂.heap.object target.object = w.heap.object target.object :=
    hsame.trans hobject₁
  rw [hobject] at haccepts
  refine ⟨_, haccepts, fun p hp hinsert => ?_⟩
  refine yields_bind.mpr ⟨_, w₁.withProperties target.object p, yields_onHeap.mpr ⟨rfl, ?_⟩,
    yields_bind.mpr ⟨(), _, hframe p, yields_heap_bind.mpr ?_⟩⟩
  · rw [← hw₁]
    rfl
  have hobject' : (w₂.withProperties target.object p).heap.object target.object =
      { w.heap.object target.object with properties := p } := by
    rw [← hobject]
    exact Heap.object_withProperties hid₂ p
  refine Store.yields_install.mpr ⟨hobject' ▸ hp, ?_⟩
  rw [World.insert, World.insert, hobject', hobject,
    World.withProperties_withProperties hid₂]
  exact congrArg _ hinsert

theorem yields_startingDescriptor_readBack :
    ((ordinary caller config .readBack).startingDescriptor target name d).Yields w start w' ↔
      (w.heap.object target.object).Accepts name d ∧ d = start ∧
        w.insert target.object name d = w' := by
  constructor
  · intro h
    obtain ⟨⟨⟩, w₁, hinstall, h⟩ := yields_bind.mp h
    obtain ⟨haccepts, rfl⟩ := Store.yields_install.mp hinstall
    obtain ⟨found, w₂, hfound, hpure⟩ := yields_bind.mp h
    obtain ⟨rfl, rfl⟩ := Store.yields_readBack.mp hfound
    obtain ⟨rfl, rfl⟩ := yields_pure.mp hpure
    rw [World.own?_insert_self (Heap.lt_size_of_accepts haccepts)]
    exact ⟨haccepts, rfl, rfl⟩
  · rintro ⟨haccepts, rfl, rfl⟩
    have hfound : (w.insert target.object name d).heap.own? target.object name = some d :=
      World.own?_insert_self (Heap.lt_size_of_accepts haccepts)
    exact yields_bind.mpr ⟨(), _, Store.yields_install.mpr ⟨haccepts, rfl⟩,
      yields_bind.mpr ⟨_, _, Store.yields_readBack.mpr ⟨hfound, rfl⟩, yields_pure.mpr ⟨rfl, rfl⟩⟩⟩

theorem yields_decorateUnit_readBack :
    ((ordinary caller config .readBack).decorateUnit target name ds d).Yields w () w' ↔
      (w.heap.object target.object).Accepts name d ∧
        ((ordinary caller config .readBack).decorateFrom target name ds d).Yields
          (w.insert target.object name d) () w' := by
  constructor
  · intro h
    obtain ⟨start, w₁, hstart, hrest⟩ := yields_bind.mp h
    obtain ⟨haccepts, rfl, rfl⟩ := yields_startingDescriptor_readBack.mp hstart
    exact ⟨haccepts, hrest⟩
  · rintro ⟨haccepts, hrest⟩
    exact yields_bind.mpr ⟨d, _, yields_startingDescriptor_readBack.mpr ⟨haccepts, rfl, rfl⟩, hrest⟩

theorem decorateUnit_synthesize_of_readBack
    (hd : ∀ handle x v,
      (ordinary caller config .readBack).Constructs target name ds d w handle x v →
      x.Discreet caller target name handle v)
    (h : ((ordinary caller config .readBack).decorateUnit target name ds d).Yields w () w') :
    ((ordinary caller config .synthesize).decorateUnit target name ds d).Yields w () w' := by
  -- The chain is run again over what the target held before the first definition.
  obtain ⟨haccepts, hchain⟩ := yields_decorateUnit_readBack.mp h
  have hid := Heap.lt_size_of_accepts haccepts
  obtain ⟨final, hfinal, hframe⟩ :=
    decorateFrom_withProperties (fun handle w₁ x v hcell hx => hd handle x v
      ⟨d, _, w₁, yields_startingDescriptor_readBack.mpr ⟨haccepts, rfl, rfl⟩, hcell, hx⟩)
      (by simpa [World.insert, World.withProperties] using hid) hchain
  rw [World.object_insert_self hid] at hfinal hframe
  have hback := hframe (w.heap.object target.object).properties (haccepts.of_insert hfinal)
    (Properties.insert_insert _ _ _ _).symm
  rw [World.insert, World.withProperties_withProperties hid, World.withProperties_self hid] at hback
  exact hback

theorem decorateUnit_readBack_of_synthesize
    (hd : ∀ handle x v,
      (ordinary caller config .synthesize).Constructs target name ds d w handle x v →
      x.Discreet caller target name handle v)
    (hid : target.object.index < w.heap.objects.size) (hconfigurable : d.configurable = true)
    (free : ∀ current, w.heap.own? target.object name = some current →
      current.configurable = true)
    (h : ((ordinary caller config .synthesize).decorateUnit target name ds d).Yields w () w') :
    ((ordinary caller config .readBack).decorateUnit target name ds d).Yields w () w' := by
  -- Synthesizing is the chain at once, and the chain does not look at the configuration.
  have hchain : ((ordinary caller config .readBack).decorateFrom target name ds d).Yields w () w' :=
    h
  obtain ⟨final, hfinal, hframe⟩ :=
    decorateFrom_withProperties (fun handle w₁ x v hcell hx => hd handle x v
      ⟨d, w, w₁, yields_pure.mpr ⟨rfl, rfl⟩, hcell, hx⟩) hid hchain
  -- A free slot takes the synthesized descriptor, which is configurable and gives way to the last.
  refine yields_decorateUnit_readBack.mpr ⟨hfinal.of_free free d, ?_⟩
  exact hframe _ (Object.Accepts.insert_configurable hconfigurable final)
    (Properties.insert_insert _ _ _ _)

/-- A member chain that the units come to: its slot, its decorators, the synthesized descriptor, and the
world in which its unit is about to be decorated. -/
inductive Reaches (e : Engine σ) (pair : ClassPair) (env : Environment) :
    List ElementUnit → World σ → Target → String → List Decorator → Descriptor → World σ → Prop
  | here {u : ElementUnit} {rest : List ElementUnit} {w w₁ w₂ : World σ} {ds : List Decorator}
    {made : UnitSource} (collected : (Decorator.collect e.caller env u.decorators).Yields w ds w₁)
    (source : (u.source e.caller env).Yields w₁ made w₂) (decorated : ds ≠ []) :
    Reaches e pair env (u :: rest) w (Placement.classElement pair u.isStatic).target u.name ds
      (made.descriptor e.config) w₂
  | later {u : ElementUnit} {rest : List ElementUnit} {w w' v : World σ} {target : Target}
    {name : String} {ds : List Decorator} {d : Descriptor}
    (first : (e.evaluateUnit pair env u).Yields w () w')
    (others : Reaches e pair env rest w' target name ds d v) :
    Reaches e pair env (u :: rest) w target name ds d v

variable {pair : ClassPair} {env : Environment}

theorem evaluateUnits_of_decorated {other : DescriptorSource} {units : List ElementUnit}
    (hunit : ∀ target name ds d v,
      (ordinary caller config source).Reaches pair env units w target name ds d v →
      (∃ made : UnitSource, d = made.descriptor config) → ∀ v',
        ((ordinary caller config source).decorateUnit target name ds d).Yields v () v' →
        ((ordinary caller config other).decorateUnit target name ds d).Yields v () v')
    (h : ((ordinary caller config source).evaluateUnits pair env units).Yields w () w') :
    ((ordinary caller config other).evaluateUnits pair env units).Yields w () w' := by
  -- Both runs are in the same world before every unit and after it.
  induction units generalizing w with
  | nil => exact h
  | cons u rest ih =>
    obtain ⟨⟨⟩, w₁, hfirst, hrest⟩ := yields_bind.mp h
    refine yields_bind.mpr ⟨(), w₁, ?_, ih (fun target name ds d v hreach =>
      hunit target name ds d v (.later hfirst hreach)) hrest⟩
    obtain ⟨ds, w₂, made, w₃, hcollect, hsource, hdone⟩ := yields_evaluateUnit.mp hfirst
    refine yields_evaluateUnit.mpr ⟨ds, w₂, made, w₃, hcollect, hsource, ?_⟩
    by_cases hds : ds = []
    · subst hds
      exact hdone
    · rw [if_neg (by simpa using hds)] at hdone ⊢
      exact hunit _ _ _ _ _ (.here hcollect hsource hds) ⟨made, rfl⟩ w₁ hdone

theorem Reaches.lt_size {e : Engine σ} (hc : e.caller.Stepwise Heap.Keeps)
    (hs : e.store = Store.ordinary σ) {units : List ElementUnit} {w v : World σ}
    (hpair : ∀ isStatic, (Placement.classElement pair isStatic).target.object.index <
      w.heap.objects.size)
    (h : e.Reaches pair env units w target name ds d v) :
    target.object.index < v.heap.objects.size := by
  induction h with
  | @here u rest w w₁ w₂ ds made collected source decorated =>
    have hcollect := (Decorator.stepwise_collect hc env u.decorators).keeps collected
    have hsource := (u.stepwise_source hc env).keeps source
    exact Nat.lt_of_lt_of_le (hpair u.isStatic) (Nat.le_trans hcollect hsource)
  | later first others ih =>
    have hfirst := (stepwise_evaluateUnit hc hs pair env _).keeps first
    exact ih fun isStatic => Nat.lt_of_lt_of_le (hpair isStatic) hfirst

def Decorates (e : Engine σ) (decl : ClassDecl) (env : Environment) (w : World σ) (target : Target)
    (name : String) (ds : List Decorator) (d : Descriptor) (v : World σ) : Prop :=
  ∃ pair w₀ units, (ClassPair.create decl.name : Action σ DecorationFault ClassPair).Yields w pair w₀ ∧
    ElementUnit.ofElements decl.elements = .ok units ∧ e.Reaches pair env units w₀ target name ds d v

theorem lt_size_of_create {className : String} {w₀ : World σ}
    (h : (ClassPair.create className : Action σ DecorationFault ClassPair).Yields w pair w₀)
    (isStatic : Bool) :
    (Placement.classElement pair isStatic).target.object.index < w₀.heap.objects.size := by
  obtain ⟨rfl, rfl⟩ := yields_onHeap.mp h
  cases isStatic with
  | false =>
    simp only [Placement.target, Heap.addObject, Heap.size_setObject, Array.size_push]
    omega
  | true => simp [Placement.target, Heap.addObject]

/-- With member decorators that are discreet where they are constructed, members that are evaluated from
read-back descriptors are evaluated from synthesized ones as well, and leave the same world. The converse
holds if the configured attributes are configurable, no decorated unit meets a property that is not, and
no object is lost on the way. -/
theorem evaluateMembers_sources_agree (caller : Caller σ) (config : Config) (decl : ClassDecl)
    (env : Environment) (w w' : World σ) (members : ClassPair × List ElementUnit) :
    ((∀ target name ds d v,
        (ordinary caller config .readBack).Decorates decl env w target name ds d v →
        ∀ handle x v', (ordinary caller config .readBack).Constructs target name ds d v handle x v' →
          x.Discreet caller target name handle v') →
      ((ordinary caller config .readBack).evaluateMembers decl env).Yields w members w' →
      ((ordinary caller config .synthesize).evaluateMembers decl env).Yields w members w') ∧
    (caller.Stepwise Heap.Keeps → config.elements.configurable = true →
      config.accessors.configurable = true →
      (∀ target name ds d v,
        (ordinary caller config .synthesize).Decorates decl env w target name ds d v →
        (∀ handle x v', (ordinary caller config .synthesize).Constructs target name ds d v handle x v' →
          x.Discreet caller target name handle v') ∧
          ∀ current, v.heap.own? target.object name = some current →
            current.configurable = true) →
      ((ordinary caller config .synthesize).evaluateMembers decl env).Yields w members w' →
      ((ordinary caller config .readBack).evaluateMembers decl env).Yields w members w') := by
  constructor
  · intro hd h
    obtain ⟨w₀, hcreate, hplan, hunits⟩ := yields_evaluateMembers.mp h
    refine yields_evaluateMembers.mpr ⟨w₀, hcreate, hplan, ?_⟩
    refine evaluateUnits_of_decorated (fun target name ds d v hreach _ v' hunit => ?_) hunits
    exact decorateUnit_synthesize_of_readBack
      (hd target name ds d v ⟨_, w₀, _, hcreate, hplan, hreach⟩) hunit
  · intro hkeeps helements haccessors hreached h
    obtain ⟨w₀, hcreate, hplan, hunits⟩ := yields_evaluateMembers.mp h
    refine yields_evaluateMembers.mpr ⟨w₀, hcreate, hplan, ?_⟩
    refine evaluateUnits_of_decorated (fun target name ds d v hreach hmade v' hunit => ?_) hunits
    obtain ⟨hd, free⟩ := hreached target name ds d v ⟨_, w₀, _, hcreate, hplan, hreach⟩
    have hid := hreach.lt_size hkeeps rfl (lt_size_of_create hcreate)
    have hconfigurable : d.configurable = true := by
      obtain ⟨made, rfl⟩ := hmade
      cases made with
      | value v => exact helements
      | accessor getter setter => exact haccessors
    exact decorateUnit_readBack_of_synthesize hd hid hconfigurable free hunit

def repeatedSlot : ClassDecl where
  name := "Point"
  elements := [
    { name := "x", kind := .field none },
    { name := "x", decorators := [⟨.identifier "readonly", []⟩],
      kind := .method (.constant "x" .null) }]

def readonlyScope : Environment := ⟨[[("readonly", .object ⟨0⟩)]]⟩

def readonlyWorld : World Unit :=
  ⟨{ objects := #[{ kind := .function (.edit .readonly) }] }, ()⟩

def readonlyDecorator : Decorator :=
  { label := "@readonly", capability := .edit .readonly, extra := [] }

theorem decorates_repeatedSlot {target : Target} {name : String} {ds : List Decorator} {d : Descriptor}
    {v : World Unit} (h : (ordinary (Caller.nested Host.none 1) config source).Decorates repeatedSlot
      readonlyScope readonlyWorld target name ds d v) :
    ds = [readonlyDecorator] ∧
      v.heap.own? target.object name = some (UnitSource.descriptor config (.value .undefined)) := by
  obtain ⟨pair, w₀, units, hcreate, hplan, hreach⟩ := h
  obtain ⟨rfl, rfl⟩ := yields_onHeap.mp hcreate
  obtain rfl := Except.ok.inj hplan
  cases hreach with
  | here collected _ decorated => exact absurd (Outcome.ok.inj collected.1).symm decorated
  | later first others =>
    obtain rfl := first.2
    cases others with
    | here collected made _ =>
      obtain rfl := collected.2
      obtain rfl := made.2
      exact ⟨(Outcome.ok.inj collected.1).symm, rfl⟩
    | later _ others => exact nomatch others

theorem evaluateMembers_sources_agree_repeatedSlot :
    ∃ members,
      ((ordinary (Caller.nested Host.none 1) {} .synthesize).evaluateMembers repeatedSlot
        readonlyScope).Yields readonlyWorld members
        ((ordinary (Caller.nested Host.none 1) {} .readBack).evaluateMembers repeatedSlot
          readonlyScope readonlyWorld).world ∧
      ((ordinary (Caller.nested Host.none 1) {} .readBack).evaluateMembers repeatedSlot
        readonlyScope).Yields readonlyWorld members
        ((ordinary (Caller.nested Host.none 1) {} .synthesize).evaluateMembers repeatedSlot
          readonlyScope readonlyWorld).world := by
  have hd (target name handle v) : ∀ x ∈ [readonlyDecorator],
      x.Discreet (Caller.nested (Host.none : Host Unit) 1) target name handle v := by
    intro x hx
    rw [List.mem_singleton.mp hx]
    exact Edit.readonly.discreet Host.none 0 target name "@readonly" [] handle v
  have hkeeps : Caller.Stepwise Heap.Keeps (Caller.nested (Host.none : Host Unit) 1) :=
    Caller.stepwise_nested (fun _ _ _ _ _ => Stepwise.pure _) 1
  refine ⟨_, (evaluateMembers_sources_agree _ _ _ _ _ _ _).1 ?_ ⟨rfl, rfl⟩,
    (evaluateMembers_sources_agree _ _ _ _ _ _ _).2 hkeeps rfl rfl ?_ ⟨rfl, rfl⟩⟩
  · intro target name ds d v h handle x v' hx
    exact hd target name handle v' x ((decorates_repeatedSlot h).1 ▸ hx.mem)
  · intro target name ds d v h
    obtain ⟨hds, hslot⟩ := decorates_repeatedSlot h
    refine ⟨fun handle x v' hx => hd target name handle v' x (hds ▸ hx.mem),
      fun current hcurrent => ?_⟩
    cases hslot.symm.trans hcurrent
    rfl

end Engine
end Decoration
