import Decoration.Engine.Literal
import Decoration.Proofs.Confined
import Decoration.Proofs.Pairing
import Decoration.Proofs.Success.Engine
import Decoration.Proofs.Undecorated.Pair

/-! Evaluation touches only what it creates. Whatever is evaluated, and wherever it stops, the objects
that were there are left as they were, if expressions write nothing and decorators write to their
targets alone. -/

namespace Decoration

open Decoration.Action

variable {σ : Type}

def DecoratorExpr.expressions (d : DecoratorExpr) : List Expr := d.callee :: d.arguments

namespace ClassElement

def expressions (e : ClassElement) : List Expr :=
  e.decorators.flatMap DecoratorExpr.expressions ++
    match e.kind with
    | .field (some initializer) => [initializer]
    | _ => []

end ClassElement

def ClassDecl.expressions (decl : ClassDecl) : List Expr :=
  decl.decorators.flatMap DecoratorExpr.expressions ++ decl.elements.flatMap ClassElement.expressions

namespace LiteralProperty

def expressions (p : LiteralProperty) : List Expr :=
  p.decorators.flatMap DecoratorExpr.expressions ++
    match p.kind with
    | .init value => [value]
    | _ => []

end LiteralProperty

def ObjectLiteral.expressions (literal : ObjectLiteral) : List Expr :=
  literal.properties.flatMap LiteralProperty.expressions

def Expr.Quiet (caller : Caller σ) (env : Environment) (h₀ : Heap) (x : Expr) : Prop :=
  ∀ v : World σ, h₀.Grows v.heap → (x.evaluate caller env).Preserves v.heap v

def Expr.isSimple : Expr → Bool
  | member .. => false
  | _ => true

theorem Expr.quiet_of_isSimple {x : Expr} (hx : x.isSimple = true) (caller : Caller σ)
    (env : Environment) (h₀ : Heap) : x.Quiet caller env h₀ := by
  intro v _
  cases x with
  | literal value => exact (Spares.pure _).preserves (.refl _)
  | identifier name =>
    rw [evaluate]
    split
    · exact (Spares.pure _).preserves (.refl _)
    · exact (Spares.fail _).preserves (.refl _)
  | member object property => cases hx

namespace Engine

def hosted (host : Host σ) (depth : Nat) (config : Config) : Engine σ :=
  ⟨Caller.nested host (depth + 1), .ordinary σ, config⟩

inductive MemberChain (e : Engine σ) (pair : ClassPair) (env : Environment) :
    List ElementUnit → World σ → ChainForm → List Decorator → World σ → Prop
  | here {u : ElementUnit} {rest : List ElementUnit} {w w₁ w₂ w₃ : World σ} {ds : List Decorator}
    {made : UnitSource} {start : Descriptor} {handle : Handle} {h : Heap}
    (collected : (Decorator.collect e.caller env u.decorators).Yields w ds w₁)
    (source : (u.source e.caller env).Yields w₁ made w₂) (decorated : ds ≠ [])
    (started : (e.startingDescriptor (Placement.classElement pair u.isStatic).target u.name
      (made.descriptor e.config)).Yields w₂ start w₃)
    (fresh : w₃.heap.addCell start = (handle, h)) :
    MemberChain e pair env (u :: rest) w
      (.member (Placement.classElement pair u.isStatic).target u.name handle) ds { w₃ with heap := h }
  | later {u : ElementUnit} {rest : List ElementUnit} {w w' v : World σ} {form : ChainForm}
    {ds : List Decorator} (first : (e.evaluateUnit pair env u).Yields w () w')
    (others : MemberChain e pair env rest w' form ds v) :
    MemberChain e pair env (u :: rest) w form ds v

inductive ClassChain (e : Engine σ) (decl : ClassDecl) (env : Environment) (w : World σ) :
    ChainForm → List Decorator → World σ → Prop
  | member {pair : ClassPair} {w₀ v : World σ} {units : List ElementUnit} {form : ChainForm}
    {ds : List Decorator}
    (created : (ClassPair.create decl.name : Action σ DecorationFault ClassPair).Yields w pair w₀)
    (plan : ElementUnit.ofElements decl.elements = .ok units)
    (reached : MemberChain e pair env units w₀ form ds v) : ClassChain e decl env w form ds v
  | classLevel {pair : ClassPair} {units : List ElementUnit} {w₁ v : World σ} {ds : List Decorator}
    (members : (e.evaluateMembers decl env).Yields w (pair, units) w₁)
    (collected : (Decorator.collect e.caller env decl.decorators).Yields w₁ ds v) :
    ClassChain e decl env w (.classLevel ⟨.constructor, pair.constructor⟩) ds v

inductive PropertyChain (e : Engine σ) (target : Target) (env : Environment) :
    List LiteralProperty → World σ → String → List Decorator → World σ → Prop
  | here {p : LiteralProperty} {rest : List LiteralProperty} {w v : World σ} {ds : List Decorator}
    (on : e.config.engine.literalDecorators = true) (decorated : p.decorators ≠ [])
    (collected : (Decorator.collect e.caller env p.decorators).Yields w ds v) :
    PropertyChain e target env (p :: rest) w p.key ds v
  | later {p : LiteralProperty} {rest : List LiteralProperty} {w w' v : World σ} {key : String}
    {ds : List Decorator} (first : (e.evaluateProperty target env p).Yields w () w')
    (others : PropertyChain e target env rest w' key ds v) :
    PropertyChain e target env (p :: rest) w key ds v

variable {host : Host σ} {depth : Nat} {config : Config} {env : Environment} {h₀ : Heap}
  {v : World σ} {target : Target} {pair : ClassPair}

theorem preserves_collect {caller : Caller σ} {list : List DecoratorExpr}
    (hx : ∀ x ∈ list.flatMap DecoratorExpr.expressions, x.Quiet caller env h₀)
    (g : h₀.Grows v.heap) : (Decorator.collect caller env list).Preserves h₀ v := by
  refine Preserves.mapM (fun d hd v g => ?_) g
  have hquiet : ∀ x ∈ d.expressions, ∀ v : World σ, h₀.Grows v.heap →
      (x.evaluate caller env).Preserves h₀ v := fun x hxd v g =>
    .of_grows g (hx x (List.mem_flatMap.mpr ⟨d, hd, hxd⟩) v g)
  rw [DecoratorExpr.expressions, List.forall_mem_cons] at hquiet
  refine (Preserves.mapFault _ (hquiet.1 v g)).bind fun callee v' _ g' => Preserves.heap_bind ?_
  split
  · exact (Spares.fail _).preserves g'
  · refine (Preserves.mapFault _ (Preserves.mapM hquiet.2 g')).bind fun extra v'' _ g'' => ?_
    exact Preserves.report_bind ((Spares.pure _).preserves g'')

theorem preserves_resolve_bind {α : Type} {p : Placement} {f : Target → Action σ DecorationFault α}
    (hf : (f p.target).Preserves h₀ v) : (p.resolve >>= f).Preserves h₀ v := by
  unfold Preserves at *
  change h₀.Grows (Action.bind p.resolve f v).world.heap
  exact hf

theorem preserves_install {name : String} {d : Descriptor} (g : h₀.Grows v.heap)
    (fresh : h₀.objects.size ≤ target.object.index) :
    ((Store.ordinary σ).install target name d).Preserves h₀ v := by
  refine Preserves.heap_bind (Preserves.report_bind (Preserves.emit_bind (Preserves.mapFault _ ?_)))
  exact (target.object.writesOnly_define name d v).preserves g fresh

theorem preserves_readBack {id : ObjectId} {name : String} (g : h₀.Grows v.heap) :
    ((Store.ordinary σ).readBack id name : Action σ DecorationFault (Option Descriptor)).Preserves
      h₀ v :=
  g

def QuietUnit (caller : Caller σ) (env : Environment) (h₀ : Heap) (u : ElementUnit) : Prop :=
  (∀ x ∈ u.decorators.flatMap DecoratorExpr.expressions, x.Quiet caller env h₀) ∧
    ∀ initializer, u.shape = .field (some initializer) → initializer.Quiet caller env h₀

theorem quietUnit_ofElements {caller : Caller σ} {elements : List ClassElement}
    {units : List ElementUnit} (h : ElementUnit.ofElements elements = .ok units)
    (hx : ∀ x ∈ elements.flatMap ClassElement.expressions, x.Quiet caller env h₀) :
    ∀ u ∈ units, QuietUnit caller env h₀ u := by
  refine ElementUnit.forall_ofElements h (fun e he => ?_) (fun e he u shape hu hshape => ?_)
  · have hquiet : ∀ x ∈ e.expressions, x.Quiet caller env h₀ := fun x hxe =>
      hx x (List.mem_flatMap.mpr ⟨e, he, hxe⟩)
    rw [ClassElement.expressions, List.forall_mem_append] at hquiet
    refine ⟨hquiet.1, fun initializer hfield => hquiet.2 initializer ?_⟩
    rw [ClassElement.unit] at hfield
    cases hk : e.kind <;> simp_all
  · have hquiet : ∀ x ∈ e.decorators.flatMap DecoratorExpr.expressions, x.Quiet caller env h₀ :=
      fun x hxe => hx x (List.mem_flatMap.mpr ⟨e, he, List.mem_append_left _ hxe⟩)
    refine ⟨?_, fun initializer hfield => ?_⟩
    · rw [List.flatMap_append, List.forall_mem_append]
      exact ⟨hu.1, hquiet⟩
    · have hfield : shape = .field (some initializer) := hfield
      rw [ElementUnit.completed?, hfield] at hshape
      split at hshape <;> simp at hshape

theorem spares_function? (half : Option Capability) :
    (half.mapM Capability.function : Action σ DecorationFault (Option ObjectId)).Spares :=
  Spares.mapM_option Capability.spares_function half

theorem preserves_source {caller : Caller σ} {u : ElementUnit} (hu : QuietUnit caller env h₀ u)
    (g : h₀.Grows v.heap) : (u.source caller env).Preserves h₀ v := by
  unfold ElementUnit.source
  split
  · exact ((Capability.spares_function _).bind fun _ => Spares.pure _).preserves g
  · exact (Spares.pure _).preserves g
  · rename_i initializer hfield
    have hquiet := Preserves.of_grows g (hu.2 initializer hfield v g)
    exact (Preserves.mapFault _ hquiet).bind fun _ v' _ g' => (Spares.pure _).preserves g'
  · exact ((spares_function? _).bind fun _ => (spares_function? _).bind fun _ =>
      Spares.pure _).preserves g

theorem preserves_startingDescriptor {name : String} {d : Descriptor} (g : h₀.Grows v.heap)
    (fresh : h₀.objects.size ≤ target.object.index) :
    ((hosted host depth config).startingDescriptor target name d).Preserves h₀ v := by
  unfold startingDescriptor
  split
  · exact (Spares.pure _).preserves g
  · refine (preserves_install g fresh).bind fun _ v' _ g' => ?_
    exact (preserves_readBack g').bind fun _ v'' _ g'' => (Spares.pure _).preserves g''

theorem preserves_evaluateUnit {u : ElementUnit} {rest : List ElementUnit}
    (hu : QuietUnit (Caller.nested host (depth + 1)) env h₀ u)
    (fresh : ∀ isStatic, h₀.objects.size ≤ (pair.side isStatic).index)
    (hchain : ∀ form ds v', (hosted host depth config).MemberChain pair env (u :: rest) v form ds v' →
      form.Confined host (Caller.nested host depth) ds v')
    (g : h₀.Grows v.heap) : ((hosted host depth config).evaluateUnit pair env u).Preserves h₀ v := by
  refine Preserves.report_bind (preserves_resolve_bind ?_)
  refine (preserves_collect hu.1 g).bind fun ds v₁ hcollect g₁ => ?_
  refine (preserves_source hu g₁).bind fun made v₂ hsource g₂ => ?_
  dsimp only
  split
  · exact preserves_install g₂ (fresh u.isStatic)
  · rename_i hds
    refine (preserves_startingDescriptor g₂ (fresh u.isStatic)).bind fun start v₃ hstart g₃ => ?_
    have hreached := hchain _ _ _
      (.here hcollect hsource (by simpa using hds) hstart (h := (v₃.heap.addCell start).2) rfl)
    have g₄ : h₀.Grows (v₃.heap.addCell start).2 := g₃.trans (Heap.grows_of_objects rfl)
    refine Preserves.bind (x := Action.onHeap _) g₄ fun handle v₄ hcell _ => ?_
    obtain ⟨rfl, rfl⟩ := yields_onHeap.mp hcell
    refine Preserves.bind (preserves_member hreached g₄ (fresh u.isStatic)) fun _ v₅ _ g₅ => ?_
    exact Preserves.heap_bind (preserves_install g₅ (fresh u.isStatic))

theorem preserves_evaluateUnits {units : List ElementUnit}
    (hunits : ∀ u ∈ units, QuietUnit (Caller.nested host (depth + 1)) env h₀ u)
    (fresh : ∀ isStatic, h₀.objects.size ≤ (pair.side isStatic).index)
    (hchain : ∀ form ds v', (hosted host depth config).MemberChain pair env units v form ds v' →
      form.Confined host (Caller.nested host depth) ds v')
    (g : h₀.Grows v.heap) :
    ((hosted host depth config).evaluateUnits pair env units).Preserves h₀ v := by
  induction units generalizing v with
  | nil => exact (Spares.pure ()).preserves g
  | cons u rest ih =>
    rw [List.forall_mem_cons] at hunits
    refine Preserves.bind (preserves_evaluateUnit hunits.1 fresh hchain g) fun _ v' hfirst g' => ?_
    exact ih hunits.2 (fun form ds v'' hlater => hchain form ds v'' (.later hfirst hlater)) g'

theorem spares_create (name : String) :
    (ClassPair.create name : Action σ DecorationFault ClassPair).Spares := by
  intro w
  have hprototype := Heap.grows_addObject w.heap {}
  have hconstructor := Heap.grows_addObject (w.heap.addObject {}).2 { kind := .classValue name }
  refine Heap.Grows.trans_but ?_ (Nat.le_refl _) (Heap.growsBut_setObject _ _ _)
  exact (hprototype.trans hconstructor).trans_but hprototype.size (Heap.growsBut_setObject _ _ _)

theorem fresh_of_create {name : String} {v' : World σ}
    (h : (ClassPair.create name : Action σ DecorationFault ClassPair).Yields v pair v')
    (isStatic : Bool) : v.heap.objects.size ≤ (pair.side isStatic).index := by
  obtain ⟨rfl, -⟩ := yields_onHeap.mp h
  cases isStatic with
  | false => exact Nat.le_refl _
  | true => exact (Heap.grows_addObject v.heap {}).size

theorem preserves_evaluateMembers {decl : ClassDecl}
    (hx : ∀ x ∈ decl.expressions, x.Quiet (Caller.nested host (depth + 1)) env v.heap)
    (hchain : ∀ form ds v', (hosted host depth config).ClassChain decl env v form ds v' →
      form.Confined host (Caller.nested host depth) ds v') :
    ((hosted host depth config).evaluateMembers decl env).Preserves v.heap v := by
  rw [ClassDecl.expressions, List.forall_mem_append] at hx
  refine ((spares_create decl.name).preserves (.refl _)).bind fun pair v₀ hcreate g₀ => ?_
  have fresh := fresh_of_create hcreate
  refine Preserves.bind ((Spares.ofExcept _).preserves g₀) fun units v₁ hunits g₁ => ?_
  obtain ⟨hplan, rfl⟩ := yields_ofExcept.mp hunits
  have hquiet := quietUnit_ofElements hplan hx.2
  refine Preserves.bind (preserves_evaluateUnits hquiet fresh (fun form ds v' hreached =>
    hchain form ds v' (.member hcreate hplan hreached)) g₁) fun _ v₂ _ g₂ => ?_
  exact (Spares.pure _).preserves g₂

theorem preserves_evaluateClass {decl : ClassDecl}
    (hx : ∀ x ∈ decl.expressions, x.Quiet (Caller.nested host (depth + 1)) env v.heap)
    (hchain : ∀ form ds v', (hosted host depth config).ClassChain decl env v form ds v' →
      form.Confined host (Caller.nested host depth) ds v') :
    ((hosted host depth config).evaluateClass decl env).Preserves v.heap v := by
  refine Preserves.report_bind ?_
  refine (preserves_evaluateMembers hx hchain).bind fun members v₁ hmembers g₁ => ?_
  obtain ⟨pair, units⟩ := members
  obtain ⟨v₀, hcreate, -⟩ := yields_evaluateMembers.mp hmembers
  have fresh := fresh_of_create hcreate
  rw [ClassDecl.expressions, List.forall_mem_append] at hx
  have hclass :
      ((hosted host depth config).decorateClass pair env decl.decorators).Preserves v.heap v₁ := by
    refine (preserves_collect hx.1 g₁).bind fun ds v₂ hcollect g₂ => ?_
    split
    · exact (Spares.pure _).preserves g₂
    · refine preserves_resolve_bind ?_
      have hreached := hchain _ _ _ (.classLevel hmembers hcollect)
      refine Preserves.bind (preserves_classLevel hreached g₂ (fresh true)) fun _ v₃ _ g₃ => ?_
      exact (Spares.pure _).preserves g₃
  refine hclass.bind fun ds v₂ _ g₂ => ?_
  exact Preserves.report_bind ((Spares.pure _).preserves g₂)

theorem preserves_propertyDescriptor {id : ObjectId} {p : LiteralProperty}
    (hx : ∀ x ∈ p.expressions, x.Quiet (Caller.nested host (depth + 1)) env h₀)
    (g : h₀.Grows v.heap) :
    ((hosted host depth config).propertyDescriptor id env p).Preserves h₀ v := by
  have hhalves : ((hosted host depth config).existingHalves id p.key).Preserves h₀ v := by
    refine (preserves_readBack g).bind fun found v' _ g' => ?_
    split <;> exact (Spares.pure _).preserves g'
  have hmethod : ∀ body : Capability, (body.function : Action σ DecorationFault ObjectId).Spares :=
    Capability.spares_function
  rw [LiteralProperty.expressions, List.forall_mem_append] at hx
  unfold propertyDescriptor
  cases hk : p.kind with
  | init value =>
    have hquiet := hx.2 value (by rw [hk]; exact List.mem_singleton_self value)
    exact (Preserves.mapFault _ (Preserves.of_grows g (hquiet v g))).bind fun _ v' _ g' =>
      (Spares.pure _).preserves g'
  | method body => exact ((hmethod body).bind fun _ => Spares.pure _).preserves g
  | getter body =>
    exact hhalves.bind fun _ v' _ g' => ((hmethod body).bind fun _ => Spares.pure _).preserves g'
  | setter body =>
    exact hhalves.bind fun _ v' _ g' => ((hmethod body).bind fun _ => Spares.pure _).preserves g'

def QuietProperty (host : Host σ) (depth : Nat) (target : Target) (key : String)
    (ds : List Decorator) (v : World σ) : Prop :=
  (ChainForm.fallback target key).Confined host (Caller.nested host depth) ds v ∧
    ∀ id v', (applyFallbackChain (Caller.nested host (depth + 1)) ds target key).Yields v (.object id)
      v' → (Descriptor.ofObject (Caller.nested host (depth + 1)) id).Preserves v'.heap v'

theorem preserves_ofValue {caller : Caller σ} {result : Value}
    (hread : ∀ id, result = .object id → (Descriptor.ofObject caller id).Preserves v.heap v)
    (g : h₀.Grows v.heap) : (Descriptor.ofValue caller result).Preserves h₀ v := by
  refine Preserves.heap_bind ?_
  cases result with
  | descriptor handle => exact (Spares.pure _).preserves g
  | object id => exact .of_grows g (hread id rfl)
  | _ => exact (Spares.fail _).preserves g

theorem preserves_evaluateProperty {p : LiteralProperty} {rest : List LiteralProperty}
    (hx : ∀ x ∈ p.expressions, x.Quiet (Caller.nested host (depth + 1)) env h₀)
    (fresh : h₀.objects.size ≤ target.object.index)
    (hchain : ∀ key ds v',
      (hosted host depth config).PropertyChain target env (p :: rest) v key ds v' →
      QuietProperty host depth target key ds v')
    (g : h₀.Grows v.heap) :
    ((hosted host depth config).evaluateProperty target env p).Preserves h₀ v := by
  unfold evaluateProperty
  split
  · refine (preserves_propertyDescriptor hx g).bind fun d v' _ g' => ?_
    exact preserves_install g' fresh
  · rename_i hplain
    rw [LiteralProperty.expressions, List.forall_mem_append] at hx
    refine Preserves.report_bind (Preserves.checked g fun hon => ?_)
    refine (preserves_collect hx.1 g).bind fun ds v₁ hcollect g₁ => ?_
    obtain ⟨hconfined, hread⟩ := hchain _ _ _
      (.here (by simpa using hon) (by simpa using hplain) hcollect)
    have hfallback : (applyFallbackChain (Caller.nested host (depth + 1)) ds target p.key).Preserves
        h₀ v₁ := preserves_fallback hconfined g₁ fresh
    refine hfallback.bind fun result v₂ hresult g₂ => ?_
    split
    · exact (Spares.report _).preserves g₂
    · refine (Preserves.mapFault _ (preserves_ofValue ?_ g₂)).bind fun d v₃ _ g₃ =>
        preserves_install g₃ fresh
      rintro id rfl
      exact hread id v₂ hresult

theorem preserves_evaluateProperties {properties : List LiteralProperty}
    (hx : ∀ x ∈ properties.flatMap LiteralProperty.expressions,
      x.Quiet (Caller.nested host (depth + 1)) env h₀)
    (fresh : h₀.objects.size ≤ target.object.index)
    (hchain : ∀ key ds v',
      (hosted host depth config).PropertyChain target env properties v key ds v' →
      QuietProperty host depth target key ds v')
    (g : h₀.Grows v.heap) :
    ((hosted host depth config).evaluateProperties target env properties).Preserves h₀ v := by
  induction properties generalizing v with
  | nil => exact (Spares.pure ()).preserves g
  | cons p rest ih =>
    rw [List.flatMap_cons, List.forall_mem_append] at hx
    refine Preserves.bind (preserves_evaluateProperty hx.1 fresh hchain g) fun _ v' hfirst g' => ?_
    exact ih hx.2 (fun key ds v'' hlater => hchain key ds v'' (.later hfirst hlater)) g'

theorem preserves_evaluateLiteral {literal : ObjectLiteral}
    (hx : ∀ x ∈ literal.expressions, x.Quiet (Caller.nested host (depth + 1)) env v.heap)
    (hchain : ∀ object w₀ key ds v',
      (Action.onHeap (·.addObject {}) : Action σ DecorationFault ObjectId).Yields v object w₀ →
      (hosted host depth config).PropertyChain ⟨.object, object⟩ env literal.properties w₀ key ds v' →
      QuietProperty host depth ⟨.object, object⟩ key ds v') :
    ((hosted host depth config).evaluateLiteral literal env).Preserves v.heap v := by
  refine Preserves.report_bind ?_
  have hcreated := Heap.grows_addObject v.heap {}
  refine Preserves.bind (x := Action.onHeap (·.addObject {})) hcreated fun object v₀ hcreate g₀ => ?_
  have fresh : v.heap.objects.size ≤ object.index := by
    obtain ⟨rfl, -⟩ := yields_onHeap.mp hcreate
    exact Nat.le_refl _
  refine preserves_resolve_bind ?_
  refine Preserves.bind (preserves_evaluateProperties hx fresh (fun key ds v' hreached =>
    hchain object v₀ key ds v' hcreate hreached) g₀) fun _ v₁ _ g₁ => ?_
  exact (Spares.pure _).preserves g₁

end Engine

/-- The environment after a definition. A failure binds nothing. -/
def Environment.after (env : Environment) {ε : Type}
    (r : Run σ ε (ObjectId × Environment)) : Environment :=
  match r.outcome with
  | .ok (_, env') => env'
  | _ => env

namespace Engine

/-- Whether a definition or a literal succeeds or fails, and wherever it does, the objects that were
there are left as they were. A class that fails binds nothing, and one that is defined binds its name in
the innermost scope alone. -/
theorem grows_of_confined (host : Host σ) (depth : Nat) (config : Config) (env : Environment)
    (w : World σ) :
    (∀ decl : ClassDecl,
      (∀ x ∈ decl.expressions, x.Quiet (Caller.nested host (depth + 1)) env w.heap) →
      (∀ form ds v, (hosted host depth config).ClassChain decl env w form ds v →
        form.Confined host (Caller.nested host depth) ds v) →
      w.heap.Grows ((hosted host depth config).defineClass decl env w).world.heap ∧
      ((∀ made, ((hosted host depth config).defineClass decl env w).outcome ≠ .ok made) →
        ∀ name, (env.after ((hosted host depth config).defineClass decl env w)).lookup? name =
          env.lookup? name) ∧
      ∀ id env', ((hosted host depth config).defineClass decl env w).outcome = .ok (id, env') →
        (∀ name, env'.lookup? name =
          if name = decl.name then some (.object id) else env.lookup? name) ∧
        env'.scopes.tail = env.scopes.tail) ∧
    ∀ literal : ObjectLiteral,
      (∀ x ∈ literal.expressions, x.Quiet (Caller.nested host (depth + 1)) env w.heap) →
      (∀ object w₀ key ds v,
        (Action.onHeap (·.addObject {}) : Action σ DecorationFault ObjectId).Yields w object w₀ →
        (hosted host depth config).PropertyChain ⟨.object, object⟩ env literal.properties w₀ key ds v →
        QuietProperty host depth ⟨.object, object⟩ key ds v) →
      w.heap.Grows ((hosted host depth config).evaluateLiteral literal env w).world.heap := by
  refine ⟨fun decl hx hchain => ?_, fun literal hx hchain => preserves_evaluateLiteral hx hchain⟩
  have hclass : ((hosted host depth config).defineClass decl env).Preserves w.heap w :=
    (preserves_evaluateClass hx hchain).bind fun _ _ _ g => (Spares.pure _).preserves g
  refine ⟨hclass, fun hfail name => ?_, fun id env' hok => ?_⟩
  · rw [Environment.after]
    split
    · rename_i hok
      exact absurd hok (hfail _)
    · rfl
  · obtain ⟨made, w', -, hbind⟩ := yields_bind.mp ⟨hok, rfl⟩
    obtain ⟨hmade, -⟩ := yields_pure.mp hbind
    obtain ⟨rfl, rfl⟩ := Prod.mk.inj hmade
    exact ⟨fun name => env.lookup?_bind decl.name name _, env.tail_bind decl.name _⟩

def labelling : Host Unit := fun caller _ _ arguments =>
  match arguments with
  | .object id :: _ => do
    id.put caller "label" (.bool true)
    return .undefined
  | _ => pure .undefined

def labelledClass : ClassDecl where
  name := "Point"
  decorators := [⟨.identifier "isTestable", [.literal (.bool true)]⟩]
  elements := [
    { name := "move", decorators := [⟨.identifier "readonly", []⟩, ⟨.identifier "label", []⟩],
      kind := .method (.constant "move" .null) },
    { name := "x", isStatic := true, kind := .field (some (.identifier "label")) }]

def labelledLiteral : ObjectLiteral where
  properties := [
    { key := "x", decorators := [⟨.identifier "provide", [.identifier "label"]⟩],
      kind := .init (.literal .null) }]

def labelledScope : Environment :=
  ⟨[[("label", .object ⟨0⟩), ("readonly", .object ⟨1⟩), ("isTestable", .object ⟨2⟩),
    ("provide", .object ⟨3⟩)]]⟩

def labelledWorld : World Unit where
  heap := { objects := #[{ kind := .function (.native "label" 0) },
    { kind := .function (.edit .readonly) }, { kind := .function (.mark .isTestable) },
    { kind := .function (.edit .provide) }] }
  host := ()

theorem confined_labelledClass {form : ChainForm} {ds : List Decorator} {v : World Unit}
    (h : (hosted labelling 0 {}).ClassChain labelledClass labelledScope labelledWorld form ds v) :
    form.Confined labelling (Caller.nested labelling 0) ds v := by
  intro d arguments v' hreached
  cases h with
  | member created plan reached =>
    obtain ⟨rfl, rfl⟩ := yields_onHeap.mp created
    obtain rfl := Except.ok.inj plan
    cases reached with
    | here collected source decorated started fresh =>
      obtain rfl := Outcome.ok.inj collected.1
      obtain rfl := collected.2
      obtain rfl := Outcome.ok.inj source.1
      obtain rfl := source.2
      obtain rfl := Outcome.ok.inj started.1
      obtain rfl := started.2
      obtain ⟨rfl, rfl⟩ := Prod.mk.inj fresh
      cases hreached with
      | here =>
        intro target htarget
        obtain rfl := Value.object.inj (Option.some.inj htarget)
        refine (ObjectId.writesOnly_put fun getter setter e c hfound => ?_).bind_pure Value.undefined
        exact absurd (hfound.symm.trans (show _ = none from rfl)) nofun
      | later first others =>
        cases others with
        | here => exact fun id hthird => nomatch hthird
        | later _ others => exact nomatch others
    | later first others =>
      obtain rfl := first.2
      cases others with
      | here collected source decorated started fresh =>
        exact absurd (Outcome.ok.inj collected.1).symm decorated
      | later _ others => exact nomatch others
  | classLevel members collected =>
    obtain ⟨rfl, rfl⟩ := Prod.mk.inj (Outcome.ok.inj members.1)
    obtain rfl := members.2
    obtain rfl := Outcome.ok.inj collected.1
    obtain rfl := collected.2
    cases hreached with
    | here =>
      intro target getter setter e c htarget hfound
      obtain rfl := Value.object.inj (Option.some.inj htarget)
      exact absurd (hfound.symm.trans (show _ = none from rfl)) nofun
    | later _ others => exact nomatch others

theorem quiet_labelledLiteral {object : ObjectId} {w₀ v : World Unit} {key : String}
    {ds : List Decorator}
    (hcreate : (Action.onHeap (·.addObject {}) : Action Unit DecorationFault ObjectId).Yields
      labelledWorld object w₀)
    (h : (hosted labelling 0 {}).PropertyChain ⟨.object, object⟩ labelledScope
      labelledLiteral.properties w₀ key ds v) : QuietProperty labelling 0 ⟨.object, object⟩ key ds v := by
  obtain ⟨rfl, rfl⟩ := yields_onHeap.mp hcreate
  cases h with
  | here on decorated collected =>
    obtain rfl := Outcome.ok.inj collected.1
    obtain rfl := collected.2
    refine ⟨fun d arguments v' hreached => ?_, fun id v' hresult => ?_⟩
    · cases hreached with
      | here => exact fun id hthird => nomatch hthird
      | later _ others => exact nomatch others
    · exact nomatch Outcome.ok.inj hresult.1
  | later _ others => exact nomatch others

theorem grows_of_confined_labelled :
    labelledWorld.heap.Grows
      ((hosted labelling 0 {}).defineClass labelledClass labelledScope labelledWorld).world.heap ∧
    (∃ env', ((hosted labelling 0 {}).defineClass labelledClass labelledScope labelledWorld).outcome =
        .ok (⟨5⟩, env') ∧ env'.lookup? "Point" = some (.object ⟨5⟩) ∧
      env'.lookup? "label" = some (.object ⟨0⟩)) ∧
    labelledWorld.heap.Grows
      ((hosted labelling 0 {}).evaluateLiteral labelledLiteral labelledScope labelledWorld).world.heap := by
  have hsimpleClass : ∀ x ∈ labelledClass.expressions, x.isSimple = true := by decide
  have hsimpleLiteral : ∀ x ∈ labelledLiteral.expressions, x.isSimple = true := by decide
  obtain ⟨hclass, hliteral⟩ := grows_of_confined labelling 0 {} labelledScope labelledWorld
  obtain ⟨hgrows, -, hbound⟩ := hclass labelledClass
    (fun x hx => Expr.quiet_of_isSimple (hsimpleClass x hx) _ _ _) fun form ds v =>
      confined_labelledClass
  have hlookups := (hbound ⟨5⟩ _ rfl).1
  refine ⟨hgrows, ⟨_, rfl, hlookups "Point", hlookups "label"⟩, hliteral labelledLiteral
    (fun x hx => Expr.quiet_of_isSimple (hsimpleLiteral x hx) _ _ _) fun object w₀ key ds v =>
      quiet_labelledLiteral⟩

end Engine
end Decoration
