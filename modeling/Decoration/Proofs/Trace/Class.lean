import Decoration.Engine.Class
import Decoration.Proofs.Trace.Chain

/-! The steps of a class evaluation. Units follow one another in the order of the class body. An
undecorated unit is defined once. A decorated one has its decorators constructed over one fresh handle,
from the bottom up, and is then defined with what the handle holds. The class's own decorators come
after the last unit, and the first failure is the end. -/

namespace Decoration

variable {σ : Type}

/-- The chain of a member over a fresh handle that holds `start`, and the definition after it. -/
inductive HandleTrace (e : Engine σ) (target : Target) (name : String) (ds : List Decorator)
    (start : Descriptor) (w : World σ) : Account σ DecorationFault Unit → Prop
  | stopped {handle : Handle} {h : Heap} {t : List Moment} {w' : World σ}
    {s : Option DecorationFault} (fresh : w.heap.addCell start = (handle, h))
    (chain : ChainTrace e.caller (.member target name handle) ds.zipIdx.reverse [] { w with heap := h }
      ⟨t, w', .error s⟩) : HandleTrace e target name ds start w ⟨t, w', .error s⟩
  | defined {handle : Handle} {h : Heap} {t : List Moment} {w' : World σ} {results : List Value}
    {a : Account σ DecorationFault Unit} (fresh : w.heap.addCell start = (handle, h))
    (chain : ChainTrace e.caller (.member target name handle) ds.zipIdx.reverse [] { w with heap := h }
      ⟨t, w', .ok results⟩)
    (last : e.store.defining target name (w'.heap.content handle) w' = a) :
    HandleTrace e target name ds start w ⟨t ++ a.steps, a.world, a.result⟩

/-- A decorated unit. The chain starts from the synthesized descriptor, or from what is read back
after it has been defined. -/
inductive DecoratedTrace (e : Engine σ) (target : Target) (name : String) (ds : List Decorator)
    (d : Descriptor) (w : World σ) : Account σ DecorationFault Unit → Prop
  | synthesized {a : Account σ DecorationFault Unit}
    (mode : e.config.engine.descriptorSource = .synthesize)
    (chain : HandleTrace e target name ds d w a) : DecoratedTrace e target name ds d w a
  | rejected {t : List Moment} {w' : World σ} {s : Option DecorationFault}
    (mode : e.config.engine.descriptorSource = .readBack)
    (first : e.store.defining target name d w = ⟨t, w', .error s⟩) :
    DecoratedTrace e target name ds d w ⟨t, w', .error s⟩
  | readBack {t : List Moment} {w' w'' : World σ} {found : Option Descriptor}
    {a : Account σ DecorationFault Unit} (mode : e.config.engine.descriptorSource = .readBack)
    (first : e.store.defining target name d w = ⟨t, w', .ok ()⟩)
    (read : e.store.read target.object name w' = (found, w''))
    (chain : HandleTrace e target name ds (found.getD d) w'' a) :
    DecoratedTrace e target name ds d w
      ⟨t ++ ⟨w'.heap, .readBack target.object name⟩ :: a.steps, a.world, a.result⟩

inductive HalfTrace (h : Heap) : Option Capability → Option Value → Heap → Prop
  | absent : HalfTrace h none none h
  | present {body : Capability} {id : ObjectId} {h' : Heap}
    (fresh : h.addObject { kind := .function body } = (id, h')) :
    HalfTrace h (some body) (some (.object id)) h'

inductive SynthesisTrace (e : Engine σ) (env : Environment) (name : String) (w : World σ) :
    UnitShape → Account σ DecorationFault Descriptor → Prop
  | method {body : Capability} {id : ObjectId} {h : Heap}
    (fresh : w.heap.addObject { kind := .function body } = (id, h)) :
    SynthesisTrace e env name w (.method body) ⟨[], { w with heap := h },
      .ok (.data (.object id) e.config.elements.writable e.config.elements.enumerable
        e.config.elements.configurable)⟩
  | empty : SynthesisTrace e env name w (.field none) ⟨[], w,
      .ok (.data .undefined e.config.elements.writable e.config.elements.enumerable
        e.config.elements.configurable)⟩
  | unevaluated {x : Expr} {m : List Moment} {w' : World σ} {s : Option Fault}
    (evaluated : (x.evaluate e.caller env w).account = ⟨m, w', .error s⟩) :
    SynthesisTrace e env name w (.field (some x)) ⟨m, w', .error (s.map (.initializer name))⟩
  | initializer {x : Expr} {m : List Moment} {w' : World σ} {v : Value}
    (evaluated : (x.evaluate e.caller env w).account = ⟨m, w', .ok v⟩) :
    SynthesisTrace e env name w (.field (some x)) ⟨m, w',
      .ok (.data v e.config.elements.writable e.config.elements.enumerable
        e.config.elements.configurable)⟩
  | accessor {getter setter : Option Capability} {f g : Option Value} {h h' : Heap}
    (get : HalfTrace w.heap getter f h) (set : HalfTrace h setter g h') :
    SynthesisTrace e env name w (.accessor getter setter) ⟨[], { w with heap := h' },
      .ok (.accessor f g e.config.accessors.enumerable e.config.accessors.configurable)⟩

/-- A unit. Its decorator expressions and then its own initializer are evaluated before any step. -/
inductive UnitTrace (e : Engine σ) (target : Target) (env : Environment) (u : ElementUnit)
    (w : World σ) : Account σ DecorationFault Unit → Prop
  | uncollected {c : List Moment} {w' : World σ} {s : Option DecorationFault}
    (collected : CollectionTrace e.caller env u.decorators w ⟨c, w', .error s⟩) :
    UnitTrace e target env u w ⟨c, w', .error s⟩
  | unmade {c m : List Moment} {w₁ w₂ : World σ} {ds : List Decorator} {s : Option DecorationFault}
    (collected : CollectionTrace e.caller env u.decorators w ⟨c, w₁, .ok ds⟩)
    (made : SynthesisTrace e env u.name w₁ u.shape ⟨m, w₂, .error s⟩) :
    UnitTrace e target env u w ⟨c ++ m, w₂, .error s⟩
  | undecorated {m : List Moment} {w' : World σ} {d : Descriptor}
    {a : Account σ DecorationFault Unit} (plain : u.decorators = [])
    (made : SynthesisTrace e env u.name w u.shape ⟨m, w', .ok d⟩)
    (only : e.store.defining target u.name d w' = a) :
    UnitTrace e target env u w ⟨m ++ a.steps, a.world, a.result⟩
  | decorated {c m : List Moment} {w₁ w₂ : World σ} {ds : List Decorator} {d : Descriptor}
    {a : Account σ DecorationFault Unit} (written : u.decorators ≠ [])
    (collected : CollectionTrace e.caller env u.decorators w ⟨c, w₁, .ok ds⟩)
    (made : SynthesisTrace e env u.name w₁ u.shape ⟨m, w₂, .ok d⟩)
    (rest : DecoratedTrace e target u.name ds d w₂ a) :
    UnitTrace e target env u w ⟨c ++ m ++ a.steps, a.world, a.result⟩

def UnitsTrace (e : Engine σ) (pair : ClassPair) (env : Environment) :
    List ElementUnit → World σ → Account σ DecorationFault Unit → Prop :=
  SequenceTrace fun u => UnitTrace e
    (if u.isStatic then ⟨.constructor, pair.constructor⟩ else ⟨.prototype, pair.prototype⟩) env u

inductive ClassTrace (e : Engine σ) (decl : ClassDecl) (env : Environment) (pair : ClassPair)
    (w : World σ) : Account σ DecorationFault ObjectId → Prop
  | unplanned {fault : DecorationFault}
    (plan : ElementUnit.ofElements decl.elements = .error fault) :
    ClassTrace e decl env pair w ⟨[], w, .error (some fault)⟩
  | stopped {units : List ElementUnit} {t : List Moment} {w' : World σ}
    {s : Option DecorationFault} (plan : ElementUnit.ofElements decl.elements = .ok units)
    (members : UnitsTrace e pair env units w ⟨t, w', .error s⟩) :
    ClassTrace e decl env pair w ⟨t, w', .error s⟩
  | uncollected {units : List ElementUnit} {t c : List Moment} {w₁ w₂ : World σ}
    {s : Option DecorationFault} (plan : ElementUnit.ofElements decl.elements = .ok units)
    (members : UnitsTrace e pair env units w ⟨t, w₁, .ok ()⟩)
    (collected : CollectionTrace e.caller env decl.decorators w₁ ⟨c, w₂, .error s⟩) :
    ClassTrace e decl env pair w ⟨t ++ c, w₂, .error s⟩
  | classLevel {units : List ElementUnit} {t c : List Moment} {w₁ w₂ : World σ}
    {ds : List Decorator} {a : Account σ DecorationFault (List Value)}
    (plan : ElementUnit.ofElements decl.elements = .ok units)
    (members : UnitsTrace e pair env units w ⟨t, w₁, .ok ()⟩)
    (collected : CollectionTrace e.caller env decl.decorators w₁ ⟨c, w₂, .ok ds⟩)
    (chain : ChainTrace e.caller (.classLevel ⟨.constructor, pair.constructor⟩) ds.zipIdx.reverse []
      w₂ a) :
    ClassTrace e decl env pair w
      ⟨t ++ c ++ a.steps, a.world, a.result.map fun _ => pair.constructor⟩

/-! A trace is the account of the evaluation. -/

theorem HandleTrace.account {e : Engine σ} {target : Target} {name : String} {ds : List Decorator}
    {start : Descriptor} {w : World σ} {a : Account σ DecorationFault Unit}
    (h : HandleTrace e target name ds start w a) :
    (e.decorateFrom target name ds start w).account = a := by
  unfold Engine.decorateFrom
  cases h with
  | stopped fresh chain => simp [Action.account_bind, fresh, chain.account_applyMemberChain]
  | defined fresh chain last =>
    simp [Action.account_bind, fresh, chain.account_applyMemberChain, Store.account_install, last]

theorem DecoratedTrace.account {e : Engine σ} {target : Target} {name : String}
    {ds : List Decorator} {d : Descriptor} {w : World σ} {a : Account σ DecorationFault Unit}
    (h : DecoratedTrace e target name ds d w a) :
    (e.decorateUnit target name ds d w).account = a := by
  unfold Engine.decorateUnit Engine.startingDescriptor
  cases h with
  | synthesized mode chain => simp [mode, chain.account]
  | rejected mode first => simp [mode, Action.account_bind, Store.account_install, first]
  | readBack mode first read chain =>
    simp [mode, Action.account_bind, Store.account_install, first, Store.account_readBack, read,
      chain.account]

theorem HalfTrace.account {h h' : Heap} {half : Option Capability} {f : Option Value}
    (trace : HalfTrace h half f h') (host : σ) : ∃ id, id.map Value.object = f ∧
      ((half.mapM Capability.function : Action σ DecorationFault (Option ObjectId)) ⟨h, host⟩).account =
        ⟨[], ⟨h', host⟩, .ok id⟩ := by
  cases trace with
  | absent => exact ⟨none, rfl, rfl⟩
  | @present _ id _ fresh => exact ⟨some id, rfl, by simp [Capability.function, fresh]⟩

theorem SynthesisTrace.account {e : Engine σ} {env : Environment} {u : ElementUnit} {w : World σ}
    {a : Account σ DecorationFault Descriptor} (h : SynthesisTrace e env u.name w u.shape a) :
    (u.source e.caller env w).account.map (·.descriptor e.config) = a := by
  unfold ElementUnit.source
  generalize u.shape = shape at h
  cases h with
  | method fresh => simp [Capability.function, fresh, UnitSource.descriptor]
  | empty => simp [UnitSource.descriptor]
  | unevaluated evaluated => simp [Action.account_mapFault, evaluated]
  | initializer evaluated => simp [Action.account_mapFault, evaluated, UnitSource.descriptor]
  | accessor get set =>
    obtain ⟨getter, rfl, hget⟩ := get.account w.host
    obtain ⟨setter, rfl, hset⟩ := set.account w.host
    simp [Action.account_bind, hget, hset, UnitSource.descriptor]

theorem Placement.target_classElement (pair : ClassPair) (isStatic : Bool) :
    (classElement pair isStatic).target =
      if isStatic then ⟨.constructor, pair.constructor⟩ else ⟨.prototype, pair.prototype⟩ := by
  cases isStatic <;> rfl

theorem UnitTrace.account {e : Engine σ} {pair : ClassPair} {env : Environment} {u : ElementUnit}
    {w : World σ} {a : Account σ DecorationFault Unit}
    (h : UnitTrace e
      (if u.isStatic then ⟨.constructor, pair.constructor⟩ else ⟨.prototype, pair.prototype⟩) env u w a) :
    (e.evaluateUnit pair env u w).account = a := by
  rw [← Placement.target_classElement] at h
  unfold Engine.evaluateUnit Placement.resolve
  cases h with
  | uncollected collected => simp [Action.account_bind, collected.account]
  | unmade collected made =>
    simp [Action.account_bind, collected.account, Account.map_eq_error made.account]
  | undecorated plain made only =>
    obtain ⟨source, hsource, rfl⟩ := Account.map_eq_ok made.account
    have hnone : (Decorator.collect e.caller env [] w).account = ⟨[], w, .ok []⟩ := rfl
    simp [Action.account_bind, plain, hnone, hsource, Store.account_install, only]
  | decorated written collected made rest =>
    obtain ⟨source, hsource, rfl⟩ := Account.map_eq_ok made.account
    have hds := collected.ne_nil written
    simp [Action.account_bind, collected.account, hsource, hds, rest.account]

theorem UnitsTrace.account {e : Engine σ} {pair : ClassPair} {env : Environment}
    {units : List ElementUnit} {w : World σ} {a : Account σ DecorationFault Unit}
    (h : UnitsTrace e pair env units w a) : (e.evaluateUnits pair env units w).account = a :=
  SequenceTrace.account (fun _ _ _ unit => unit.account) rfl (fun _ _ => rfl) h

theorem ChainTrace.account_decorateClass {e : Engine σ} {pair : ClassPair} {env : Environment}
    {list : List DecoratorExpr} {w w' : World σ} {c : List Moment} {ds : List Decorator}
    {a : Account σ DecorationFault (List Value)}
    (collected : CollectionTrace e.caller env list w ⟨c, w', .ok ds⟩)
    (chain : ChainTrace e.caller (.classLevel ⟨.constructor, pair.constructor⟩) ds.zipIdx.reverse []
      w' a) :
    (e.decorateClass pair env list w).account =
      ⟨c ++ a.steps, a.world, a.result.map fun _ => ds⟩ := by
  unfold Engine.decorateClass Placement.resolve
  cases ds with
  | nil =>
    cases chain
    simp [Action.account_bind, collected.account, Except.map]
  | cons d ds =>
    have hc := chain.account_applyClassChain
    rcases a with ⟨t, w'', s | results⟩ <;>
      simp [Action.account_bind, collected.account, Placement.target, hc, Except.map]

theorem ClassTrace.account {e : Engine σ} {decl : ClassDecl} {env : Environment} {pair : ClassPair}
    {w w₀ : World σ} {a : Account σ DecorationFault ObjectId}
    (created : (ClassPair.create decl.name w : Run σ DecorationFault ClassPair) =
      ⟨.ok pair, w₀, []⟩)
    (h : ClassTrace e decl env pair w₀ a) : (e.evaluateClass decl env w).account = a := by
  have hp : (ClassPair.create decl.name w : Run σ DecorationFault ClassPair).account =
      ⟨[], w₀, .ok pair⟩ := by rw [created]; rfl
  unfold Engine.evaluateClass Engine.evaluateMembers
  cases h with
  | unplanned plan => simp [Action.account_bind, hp, plan, Action.ofExcept]
  | stopped plan members =>
    simp [Action.account_bind, hp, plan, Action.ofExcept, members.account]
  | uncollected plan members collected =>
    simp [Action.account_bind, hp, plan, Action.ofExcept, members.account, Engine.decorateClass,
      collected.account]
  | @classLevel units t c w₁ w₂ ds a plan members collected chain =>
    have hc := chain.account_decorateClass collected
    rcases a with ⟨t', w', s | results⟩ <;>
      simp [Action.account_bind, hp, plan, Action.ofExcept, members.account, hc, Except.map]

/-! Every evaluation has a trace. -/

theorem HandleTrace.total (e : Engine σ) (target : Target) (name : String) (ds : List Decorator)
    (start : Descriptor) (w : World σ) : ∃ a, HandleTrace e target name ds start w a := by
  rcases fresh : w.heap.addCell start with ⟨handle, h⟩
  obtain ⟨⟨t, w', s | results⟩, chain⟩ :=
    ChainTrace.total e.caller (.member target name handle) ds.zipIdx.reverse [] { w with heap := h }
  · exact ⟨_, .stopped fresh chain⟩
  · exact ⟨_, .defined fresh chain rfl⟩

theorem DecoratedTrace.total (e : Engine σ) (target : Target) (name : String)
    (ds : List Decorator) (d : Descriptor) (w : World σ) :
    ∃ a, DecoratedTrace e target name ds d w a := by
  cases mode : e.config.engine.descriptorSource with
  | synthesize =>
    obtain ⟨a, chain⟩ := HandleTrace.total e target name ds d w
    exact ⟨a, .synthesized mode chain⟩
  | readBack =>
    rcases first : e.store.defining target name d w with ⟨t, w', s | ⟨⟩⟩
    · exact ⟨_, .rejected mode first⟩
    · rcases read : e.store.read target.object name w' with ⟨found, w''⟩
      obtain ⟨a, chain⟩ := HandleTrace.total e target name ds (found.getD d) w''
      exact ⟨_, .readBack mode first read chain⟩

theorem HalfTrace.total (h : Heap) (half : Option Capability) : ∃ f h', HalfTrace h half f h' := by
  cases half with
  | none => exact ⟨_, _, .absent⟩
  | some body => exact ⟨_, _, .present rfl⟩

theorem SynthesisTrace.total (e : Engine σ) (env : Environment) (name : String) (w : World σ)
    (shape : UnitShape) : ∃ a, SynthesisTrace e env name w shape a := by
  cases shape with
  | method body => exact ⟨_, .method rfl⟩
  | field initializer =>
    cases initializer with
    | none => exact ⟨_, .empty⟩
    | some x =>
      rcases evaluated : (x.evaluate e.caller env w).account with ⟨m, w', s | v⟩
      · exact ⟨_, .unevaluated evaluated⟩
      · exact ⟨_, .initializer evaluated⟩
  | accessor getter setter =>
    obtain ⟨f, h, get⟩ := HalfTrace.total w.heap getter
    obtain ⟨g, h', set⟩ := HalfTrace.total h setter
    exact ⟨_, .accessor get set⟩

theorem UnitTrace.total (e : Engine σ) (target : Target) (env : Environment) (u : ElementUnit)
    (w : World σ) : ∃ a, UnitTrace e target env u w a := by
  obtain ⟨⟨c, w₁, s | ds⟩, collected⟩ := CollectionTrace.total e.caller env u.decorators w
  · exact ⟨_, .uncollected collected⟩
  obtain ⟨⟨m, w₂, s | d⟩, made⟩ := SynthesisTrace.total e env u.name w₁ u.shape
  · exact ⟨_, .unmade collected made⟩
  by_cases plain : u.decorators = []
  · rw [plain] at collected
    cases collected
    exact ⟨_, .undecorated plain made rfl⟩
  · obtain ⟨a, rest⟩ := DecoratedTrace.total e target u.name ds d w₂
    exact ⟨_, .decorated plain collected made rest⟩

theorem UnitsTrace.total (e : Engine σ) (pair : ClassPair) (env : Environment)
    (units : List ElementUnit) (w : World σ) : ∃ a, UnitsTrace e pair env units w a :=
  SequenceTrace.total (fun u => UnitTrace.total e _ env u) units w

theorem ClassTrace.total (e : Engine σ) (decl : ClassDecl) (env : Environment) (pair : ClassPair)
    (w : World σ) : ∃ a, ClassTrace e decl env pair w a := by
  rcases plan : ElementUnit.ofElements decl.elements with fault | units
  · exact ⟨_, .unplanned plan⟩
  obtain ⟨⟨t, w₁, s | ⟨⟩⟩, members⟩ := UnitsTrace.total e pair env units w
  · exact ⟨_, .stopped plan members⟩
  obtain ⟨⟨c, w₂, s | ds⟩, collected⟩ := CollectionTrace.total e.caller env decl.decorators w₁
  · exact ⟨_, .uncollected plan members collected⟩
  obtain ⟨a, chain⟩ := ChainTrace.total e.caller (.classLevel ⟨.constructor, pair.constructor⟩)
    ds.zipIdx.reverse [] w₂
  exact ⟨_, .classLevel plan members collected chain⟩

/-- The steps of a class evaluation, where it ends and how are exactly those of its trace, whatever
the capabilities and the store do. -/
theorem evaluateClass_account_iff (e : Engine σ) (decl : ClassDecl) (env : Environment)
    (w : World σ) :
    ∃ pair w₀, (ClassPair.create decl.name w : Run σ DecorationFault ClassPair) =
        ⟨.ok pair, w₀, []⟩ ∧
      ∀ a, (e.evaluateClass decl env w).account = a ↔ ClassTrace e decl env pair w₀ a := by
  refine ⟨_, _, rfl, fun a => ⟨?_, fun h => h.account rfl⟩⟩
  rintro rfl
  obtain ⟨a, h⟩ := ClassTrace.total e decl env _ _
  have ha := h.account (w := w) rfl
  exact ha ▸ h

end Decoration
