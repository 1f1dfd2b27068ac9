import Decoration.Engine.Literal
import Decoration.Proofs.Trace.Chain

/-! The steps of evaluating an object literal. An undecorated property is defined once. A decorated one
has its decorators constructed with the latest truthy result, and is then defined with what that result
converts to, or not at all if there is none. -/

namespace Decoration

variable {σ : Type}

def Descriptor.halves : Option Descriptor → Option Value × Option Value
  | some (accessor getter setter ..) => (getter, setter)
  | _ => (none, none)

inductive PlainTrace (e : Engine σ) (target : Target) (env : Environment) (key : String)
    (w : World σ) : PropertyKind → Account σ DecorationFault Unit → Prop
  | unevaluated {expr : Expr} {m : List Moment} {w' : World σ} {s : Option Fault}
    (evaluated : (expr.evaluate e.caller env w).account = ⟨m, w', .error s⟩) :
    PlainTrace e target env key w (.init expr) ⟨m, w', .error (s.map (.initializer key))⟩
  | value {expr : Expr} {m : List Moment} {w' : World σ} {v : Value}
    {a : Account σ DecorationFault Unit}
    (evaluated : (expr.evaluate e.caller env w).account = ⟨m, w', .ok v⟩)
    (only : e.store.defining target key (.ordinary v) w' = a) :
    PlainTrace e target env key w (.init expr) ⟨m ++ a.steps, a.world, a.result⟩
  | method {body : Capability} {id : ObjectId} {h : Heap} {a : Account σ DecorationFault Unit}
    (fresh : w.heap.addObject { kind := .function body } = (id, h))
    (only : e.store.defining target key (.ordinary (.object id)) { w with heap := h } = a) :
    PlainTrace e target env key w (.method body) a
  | getter {body : Capability} {found : Option Descriptor} {w' : World σ} {id : ObjectId} {h : Heap}
    {a : Account σ DecorationFault Unit} (read : e.store.read target.object key w = (found, w'))
    (fresh : w'.heap.addObject { kind := .function body } = (id, h))
    (only : e.store.defining target key
      (.accessor (some (.object id)) (Descriptor.halves found).2 true true)
      { w' with heap := h } = a) :
    PlainTrace e target env key w (.getter body)
      ⟨⟨w.heap, .readBack target.object key⟩ :: a.steps, a.world, a.result⟩
  | setter {body : Capability} {found : Option Descriptor} {w' : World σ} {id : ObjectId} {h : Heap}
    {a : Account σ DecorationFault Unit} (read : e.store.read target.object key w = (found, w'))
    (fresh : w'.heap.addObject { kind := .function body } = (id, h))
    (only : e.store.defining target key
      (.accessor (Descriptor.halves found).1 (some (.object id)) true true)
      { w' with heap := h } = a) :
    PlainTrace e target env key w (.setter body)
      ⟨⟨w.heap, .readBack target.object key⟩ :: a.steps, a.world, a.result⟩

/-- A decorated property. What stands for its own value has no part in it. -/
inductive FallbackTrace (e : Engine σ) (target : Target) (env : Environment) (key : String)
    (list : List DecoratorExpr) (w : World σ) : Account σ DecorationFault Unit → Prop
  | disabled (off : e.config.engine.literalDecorators = false) :
    FallbackTrace e target env key list w ⟨[], w, .error (some (.literalDecoratorsDisabled key))⟩
  | uncollected {c : List Moment} {w' : World σ} {s : Option DecorationFault}
    (on : e.config.engine.literalDecorators = true)
    (collected : CollectionTrace e.caller env list w ⟨c, w', .error s⟩) :
    FallbackTrace e target env key list w ⟨c, w', .error s⟩
  | stopped {c t : List Moment} {w₁ w₂ : World σ} {ds : List Decorator}
    {s : Option DecorationFault} (on : e.config.engine.literalDecorators = true)
    (collected : CollectionTrace e.caller env list w ⟨c, w₁, .ok ds⟩)
    (chain : ChainTrace e.caller (.fallback target key) ds.zipIdx.reverse [] w₁ ⟨t, w₂, .error s⟩) :
    FallbackTrace e target env key list w ⟨c ++ t, w₂, .error s⟩
  | nothing {c t : List Moment} {w₁ w₂ : World σ} {ds : List Decorator} {results : List Value}
    (on : e.config.engine.literalDecorators = true)
    (collected : CollectionTrace e.caller env list w ⟨c, w₁, .ok ds⟩)
    (chain : ChainTrace e.caller (.fallback target key) ds.zipIdx.reverse [] w₁ ⟨t, w₂, .ok results⟩)
    (falsy : ∀ r ∈ results, r.isTruthy = false) :
    FallbackTrace e target env key list w ⟨c ++ t, w₂, .ok ()⟩
  | unconverted {c t m : List Moment} {w₁ w₂ w₃ : World σ} {ds : List Decorator}
    {results : List Value} {s : Option Fault} (on : e.config.engine.literalDecorators = true)
    (collected : CollectionTrace e.caller env list w ⟨c, w₁, .ok ds⟩)
    (chain : ChainTrace e.caller (.fallback target key) ds.zipIdx.reverse [] w₁ ⟨t, w₂, .ok results⟩)
    (truthy : ∃ r ∈ results, r.isTruthy = true)
    (converted : (Descriptor.ofValue e.caller (latestTruthy results) w₂).account =
      ⟨m, w₃, .error s⟩) :
    FallbackTrace e target env key list w
      ⟨c ++ t ++ m, w₃, .error (s.map (.installRejected key (w₃.heap.describe target.object)))⟩
  | defined {c t m : List Moment} {w₁ w₂ w₃ : World σ} {ds : List Decorator}
    {results : List Value} {d : Descriptor} {a : Account σ DecorationFault Unit}
    (on : e.config.engine.literalDecorators = true)
    (collected : CollectionTrace e.caller env list w ⟨c, w₁, .ok ds⟩)
    (chain : ChainTrace e.caller (.fallback target key) ds.zipIdx.reverse [] w₁ ⟨t, w₂, .ok results⟩)
    (truthy : ∃ r ∈ results, r.isTruthy = true)
    (converted : (Descriptor.ofValue e.caller (latestTruthy results) w₂).account = ⟨m, w₃, .ok d⟩)
    (last : e.store.defining target key d w₃ = a) :
    FallbackTrace e target env key list w ⟨c ++ t ++ m ++ a.steps, a.world, a.result⟩

inductive PropertyTrace (e : Engine σ) (target : Target) (env : Environment) (p : LiteralProperty)
    (w : World σ) : Account σ DecorationFault Unit → Prop
  | undecorated {a : Account σ DecorationFault Unit} (plain : p.decorators = [])
    (trace : PlainTrace e target env p.key w p.kind a) : PropertyTrace e target env p w a
  | decorated {a : Account σ DecorationFault Unit} (written : p.decorators ≠ [])
    (trace : FallbackTrace e target env p.key p.decorators w a) : PropertyTrace e target env p w a

def LiteralTrace (e : Engine σ) (target : Target) (env : Environment) :
    List LiteralProperty → World σ → Account σ DecorationFault Unit → Prop :=
  SequenceTrace fun p => PropertyTrace e target env p

/-! A trace is the account of the evaluation. -/

theorem account_existingHalves (e : Engine σ) (target : ObjectId) (key : String) (w : World σ) :
    (e.existingHalves target key w).account =
      ⟨[⟨w.heap, .readBack target key⟩], (e.store.read target key w).2,
        .ok (Descriptor.halves (e.store.read target key w).1)⟩ := by
  unfold Engine.existingHalves
  rw [Action.account_bind, Store.account_readBack]
  rcases (e.store.read target key w).1 with _ | ⟨⟩ | ⟨⟩ <;> rfl

theorem PlainTrace.account {e : Engine σ} {target : Target} {env : Environment}
    {p : LiteralProperty} {w : World σ} {a : Account σ DecorationFault Unit}
    (plain : p.decorators = []) (h : PlainTrace e target env p.key w p.kind a) :
    (e.evaluateProperty target env p w).account = a := by
  obtain ⟨key, decorators, kind⟩ := p
  subst plain
  unfold Engine.evaluateProperty Engine.propertyDescriptor
  cases h with
  | unevaluated evaluated =>
    simp [Action.account_bind, Action.account_mapFault, evaluated]
  | value evaluated only =>
    simp [Action.account_bind, Action.account_mapFault, evaluated, Store.account_install, only]
  | method fresh only =>
    simp [Action.account_bind, Capability.function, fresh, Store.account_install, only]
  | getter read fresh only =>
    simp [Action.account_bind, account_existingHalves, read, Capability.function, fresh,
      Store.account_install, only]
  | setter read fresh only =>
    simp [Action.account_bind, account_existingHalves, read, Capability.function, fresh,
      Store.account_install, only]

theorem FallbackTrace.account {e : Engine σ} {target : Target} {env : Environment}
    {p : LiteralProperty} {w : World σ} {a : Account σ DecorationFault Unit}
    (h : FallbackTrace e target env p.key p.decorators w a) :
    (e.decorateProperty target env p w).account = a := by
  unfold Engine.decorateProperty
  cases h with
  | disabled off => simp [Action.account_bind, off]
  | uncollected on collected => simp [Action.account_bind, on, collected.account]
  | stopped on collected chain =>
    simp [Action.account_bind, on, collected.account, chain.account_applyFallbackChain]
  | nothing on collected chain falsy =>
    have hn : (latestTruthy _).isUndefined = true :=
      (isUndefined_latestTruthy _).trans (by simpa using falsy)
    simp [Action.account_bind, on, collected.account, chain.account_applyFallbackChain, hn]
  | unconverted on collected chain truthy converted =>
    have hs : (latestTruthy _).isUndefined = false :=
      (isUndefined_latestTruthy _).trans (by simpa using truthy)
    simp [Action.account_bind, on, collected.account, chain.account_applyFallbackChain, hs,
      Action.account_mapFault, converted]
  | defined on collected chain truthy converted last =>
    have hs : (latestTruthy _).isUndefined = false :=
      (isUndefined_latestTruthy _).trans (by simpa using truthy)
    simp [Action.account_bind, on, collected.account, chain.account_applyFallbackChain, hs,
      Action.account_mapFault, converted, Store.account_install, last]

theorem PropertyTrace.account {e : Engine σ} {target : Target} {env : Environment}
    {p : LiteralProperty} {w : World σ} {a : Account σ DecorationFault Unit}
    (h : PropertyTrace e target env p w a) : (e.evaluateProperty target env p w).account = a := by
  cases h with
  | undecorated plain trace => exact trace.account plain
  | decorated written trace =>
    unfold Engine.evaluateProperty
    rw [if_neg (mt List.isEmpty_iff.mp written)]
    exact trace.account

theorem LiteralTrace.account {e : Engine σ} {target : Target} {env : Environment}
    {list : List LiteralProperty} {w : World σ} {a : Account σ DecorationFault Unit}
    (h : LiteralTrace e target env list w a) :
    (e.evaluateProperties target env list w).account = a :=
  SequenceTrace.account (fun _ _ _ property => property.account) rfl (fun _ _ => rfl) h

/-! Every evaluation has a trace. -/

theorem PlainTrace.total (e : Engine σ) (target : Target) (env : Environment) (key : String)
    (w : World σ) (kind : PropertyKind) : ∃ a, PlainTrace e target env key w kind a := by
  cases kind with
  | init expr =>
    rcases evaluated : (expr.evaluate e.caller env w).account with ⟨m, w', s | v⟩
    · exact ⟨_, .unevaluated evaluated⟩
    · exact ⟨_, .value evaluated rfl⟩
  | method body => exact ⟨_, .method rfl rfl⟩
  | getter body => exact ⟨_, .getter rfl rfl rfl⟩
  | setter body => exact ⟨_, .setter rfl rfl rfl⟩

theorem FallbackTrace.total (e : Engine σ) (target : Target) (env : Environment) (key : String)
    (list : List DecoratorExpr) (w : World σ) : ∃ a, FallbackTrace e target env key list w a := by
  cases switch : e.config.engine.literalDecorators with
  | false => exact ⟨_, .disabled switch⟩
  | true =>
    obtain ⟨⟨c, w₁, s | ds⟩, collected⟩ := CollectionTrace.total e.caller env list w
    · exact ⟨_, .uncollected switch collected⟩
    obtain ⟨⟨t, w₂, s | results⟩, chain⟩ :=
      ChainTrace.total e.caller (.fallback target key) ds.zipIdx.reverse [] w₁
    · exact ⟨_, .stopped switch collected chain⟩
    cases hr : results.any Value.isTruthy with
    | false =>
      have falsy : ∀ r ∈ results, r.isTruthy = false := by simpa using hr
      exact ⟨_, .nothing switch collected chain falsy⟩
    | true =>
      have truthy := List.any_eq_true.mp hr
      rcases converted : (Descriptor.ofValue e.caller (latestTruthy results) w₂).account
        with ⟨m, w₃, s | d⟩
      · exact ⟨_, .unconverted switch collected chain truthy converted⟩
      · exact ⟨_, .defined switch collected chain truthy converted rfl⟩

theorem PropertyTrace.total (e : Engine σ) (target : Target) (env : Environment)
    (p : LiteralProperty) (w : World σ) : ∃ a, PropertyTrace e target env p w a := by
  by_cases plain : p.decorators = []
  · obtain ⟨a, trace⟩ := PlainTrace.total e target env p.key w p.kind
    exact ⟨a, .undecorated plain trace⟩
  · obtain ⟨a, trace⟩ := FallbackTrace.total e target env p.key p.decorators w
    exact ⟨a, .decorated plain trace⟩

theorem LiteralTrace.total (e : Engine σ) (target : Target) (env : Environment)
    (list : List LiteralProperty) (w : World σ) : ∃ a, LiteralTrace e target env list w a :=
  SequenceTrace.total (PropertyTrace.total e target env) list w

/-! The value that is written for a decorated property. -/

/-- Puts something else in the place of a decorated property's own value. -/
def LiteralProperty.replaceValue (f : LiteralProperty → PropertyKind) (p : LiteralProperty) :
    LiteralProperty :=
  if p.decorators.isEmpty then p else { p with kind := f p }

theorem evaluateProperty_replaceValue (e : Engine σ) (target : Target) (env : Environment)
    (f : LiteralProperty → PropertyKind) (p : LiteralProperty) :
    e.evaluateProperty target env (p.replaceValue f) = e.evaluateProperty target env p := by
  unfold LiteralProperty.replaceValue
  by_cases h : p.decorators.isEmpty = true
  · rw [if_pos h]
  · simp only [if_neg h, Engine.evaluateProperty]
    rfl

theorem evaluateProperties_replaceValue (e : Engine σ) (target : Target) (env : Environment)
    (f : LiteralProperty → PropertyKind) (list : List LiteralProperty) :
    e.evaluateProperties target env (list.map (·.replaceValue f)) =
      e.evaluateProperties target env list := by
  induction list with
  | nil => rfl
  | cons p rest ih =>
    simp only [List.map_cons, Engine.evaluateProperties, evaluateProperty_replaceValue, ih]

/-- The steps of a literal's evaluation, where it ends and how are exactly those of its trace, and no
part of the run depends on what is written for the values of decorated properties. -/
theorem evaluateLiteral_account_iff (e : Engine σ) (literal : ObjectLiteral) (env : Environment)
    (w : World σ) :
    (∃ object h, w.heap.addObject {} = (object, h) ∧
      ∀ a, (e.evaluateLiteral literal env w).account = a ↔
        ∃ b, LiteralTrace e ⟨.object, object⟩ env literal.properties { w with heap := h } b ∧
          a = b.map fun _ => object) ∧
    ∀ f, e.evaluateLiteral ⟨literal.properties.map (·.replaceValue f)⟩ env =
      e.evaluateLiteral literal env := by
  refine ⟨⟨_, _, rfl, fun a => ?_⟩, fun f => ?_⟩
  · have run {b} (h : LiteralTrace e ⟨.object, (w.heap.addObject {}).1⟩ env literal.properties
        { w with heap := (w.heap.addObject {}).2 } b) :
        (e.evaluateLiteral literal env w).account = b.map fun _ => (w.heap.addObject {}).1 := by
      unfold Engine.evaluateLiteral Placement.resolve
      simp [Action.account_bind, Placement.target, h.account]
    constructor
    · rintro rfl
      obtain ⟨b, h⟩ := LiteralTrace.total e ⟨.object, (w.heap.addObject {}).1⟩ env
        literal.properties { w with heap := (w.heap.addObject {}).2 }
      exact ⟨b, h, run h⟩
    · rintro ⟨b, h, rfl⟩
      exact run h
  · simp only [Engine.evaluateLiteral, List.length_map, evaluateProperties_replaceValue]

end Decoration
