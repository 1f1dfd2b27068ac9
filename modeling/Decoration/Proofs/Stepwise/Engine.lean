import Decoration.Engine.Literal
import Decoration.Proofs.Redefinition
import Decoration.Proofs.Stepwise.Access

/-! Evaluation over the ordinary store goes by steps if the capabilities do. -/

namespace Decoration

open Decoration.Action

variable {σ : Type} {S : Heap → Heap → Prop} {caller : Caller σ}

namespace Decorator

theorem stepwise_collectOne [Heap.Coarse S] (hc : caller.Stepwise S) (env : Environment)
    (d : DecoratorExpr) : (collectOne caller env d).Stepwise S := by
  refine ((Expr.stepwise_evaluate hc env d.callee).mapFault _).bind fun callee =>
    Stepwise.heap.bind fun h => ?_
  dsimp only
  split
  · exact Stepwise.fail _
  · exact ((Stepwise.mapM (Expr.stepwise_evaluate hc env) d.arguments).mapFault _).bind fun _ =>
      (Stepwise.report _).bind fun _ => Stepwise.pure _

theorem stepwise_collect [Heap.Coarse S] (hc : caller.Stepwise S) (env : Environment)
    (list : List DecoratorExpr) : (collect caller env list).Stepwise S :=
  Stepwise.mapM (stepwise_collectOne hc env) list

theorem stepwise_construct (hc : caller.Stepwise S) (d : Decorator) (target : Target)
    (name : Option String) (arguments : List Value) :
    (d.construct caller target name arguments).Stepwise S :=
  (Stepwise.emit _).bind fun _ => (hc d.capability .construct _).mapFault _

end Decorator

namespace Chain

theorem stepwise_member (hc : caller.Stepwise S) (target : Target) (name : String) (handle : Handle)
    (list : List (Decorator × Nat)) : (member caller target name handle list).Stepwise S := by
  induction list with
  | nil => exact Stepwise.pure ()
  | cons first rest ih =>
    exact Stepwise.heap.bind fun h => (Stepwise.emit _).bind fun _ =>
      (Stepwise.report _).bind fun _ =>
      (first.1.stepwise_construct hc target (some name) _).bind fun _ => ih

theorem stepwise_classLevel (hc : caller.Stepwise S) (target : Target)
    (list : List (Decorator × Nat)) : (classLevel caller target list).Stepwise S := by
  induction list with
  | nil => exact Stepwise.pure ()
  | cons first rest ih =>
    exact (Stepwise.emit _).bind fun _ => (Stepwise.report _).bind fun _ =>
      (first.1.stepwise_construct hc target none _).bind fun _ => ih

theorem stepwise_fallback (hc : caller.Stepwise S) (target : Target) (name : String)
    (running : Value) (list : List (Decorator × Nat)) :
    (fallback caller target name running list).Stepwise S := by
  induction list generalizing running with
  | nil => exact Stepwise.pure running
  | cons first rest ih =>
    exact (Stepwise.emit _).bind fun _ => (Stepwise.report _).bind fun _ =>
      (first.1.stepwise_construct hc target (some name) _).bind fun result => ih _

end Chain

theorem Placement.stepwise_resolve {ε : Type} (p : Placement) :
    (p.resolve : Action σ ε Target).Stepwise S :=
  (Stepwise.report _).bind fun _ => Stepwise.pure p.target

theorem Store.stepwise_readBack {ε : Type} (target : ObjectId) (name : String) :
    ((Store.ordinary σ).readBack target name : Action σ ε (Option Descriptor)).Stepwise S :=
  (Stepwise.emit _).bind fun _ => fun _ => .still

theorem Engine.stepwise_decorateClass [Heap.Coarse S] {e : Engine σ} (hc : e.caller.Stepwise S)
    (pair : ClassPair) (env : Environment) (list : List DecoratorExpr) :
    (e.decorateClass pair env list).Stepwise S := by
  refine (Decorator.stepwise_collect hc env list).bind fun decorators => ?_
  split
  · exact Stepwise.pure decorators
  · exact (Placement.stepwise_resolve _).bind fun target =>
      (Chain.stepwise_classLevel hc target _).bind fun _ => Stepwise.pure decorators

variable [Heap.Coarse S]

theorem ElementUnit.follows_source {R : World σ → List Moment → World σ → Prop} [StepTrail R]
    (hc : caller.Follows R) (env : Environment) (u : ElementUnit) :
    (u.source caller env).Follows R := by
  unfold source
  split
  · exact (Capability.follows_function _).bind fun _ => Follows.pure _
  · exact Follows.pure _
  · exact ((Expr.follows_evaluate hc env _).mapFault _).bind fun _ => Follows.pure _
  · exact (Follows.mapM_option Capability.follows_function _).bind fun _ =>
      (Follows.mapM_option Capability.follows_function _).bind fun _ => Follows.pure _

theorem ElementUnit.stepwise_source (hc : caller.Stepwise S) (env : Environment) (u : ElementUnit) :
    (u.source caller env).Stepwise S := u.follows_source (R := Heap.along S) hc env

theorem ClassPair.stepwise_create {ε : Type} (name : String) :
    (ClassPair.create name : Action σ ε ClassPair).Stepwise S := by
  refine Stepwise.onHeap fun h => ?_
  let h₁ := (h.addObject {}).2
  let prototype := (h.addObject {}).1
  let h₂ := (h₁.addObject { kind := .classValue name }).2
  let constructor := (h₁.addObject { kind := .classValue name }).1
  let h₃ := h₂.setObject constructor ((h₂.object constructor).insert "prototype"
    (.data (.object prototype) false false false))
  have hne : prototype ≠ constructor := by simp [prototype, constructor, h₁, Heap.addObject]
  have hlt : constructor.index < h₂.objects.size := by simp [constructor, h₂, Heap.addObject]
  have hconstructor : h₂.object constructor = { kind := .classValue name } := by
    rw [Heap.object_addObject, if_pos rfl]
  have hprototype : h₃.object prototype = {} := by
    rw [Heap.object_setObject hlt, if_neg hne, Heap.object_addObject, if_neg hne,
      Heap.object_addObject, if_pos rfl]
  have first : Heap.Step h h₁ := .created rfl
  have second : Heap.Step h₁ h₂ := .created rfl
  have link : Heap.Step h₂ h₃ := .defined (Heap.define_eq_ok.mpr
    ⟨Object.accepts_of_empty (by rw [hconstructor]) (by rw [hconstructor]) _ _, rfl⟩)
  have back := Heap.Step.defined (Heap.define_eq_ok.mpr
    ⟨Object.accepts_of_empty (o := h₃.object prototype) (by rw [hprototype]) (by rw [hprototype])
      "constructor" (.data (.object constructor) true false true), rfl⟩)
  exact first.progress.append (second.progress.append (link.progress.append back.progress))

theorem Store.stepwise_install (target : Target) (name : String) (d : Descriptor) :
    ((Store.ordinary σ).install target name d).Stepwise S :=
  Stepwise.heap.bind fun _ => (Stepwise.report _).bind fun _ => (Stepwise.emit _).bind fun _ =>
    (target.object.stepwise_define name d).mapFault _

namespace Engine

variable {e : Engine σ}

theorem stepwise_decorateFrom (hc : e.caller.Stepwise S) (hs : e.store = Store.ordinary σ)
    (target : Target) (name : String) (decorators : List Decorator) (start : Descriptor) :
    (e.decorateFrom target name decorators start).Stepwise S := by
  refine (Stepwise.onHeap_beside fun _ => rfl).bind fun handle =>
    (Chain.stepwise_member hc target name handle _).bind fun _ => Stepwise.heap.bind fun h => ?_
  rw [hs]
  exact Store.stepwise_install target name _

theorem stepwise_startingDescriptor (hs : e.store = Store.ordinary σ) (target : Target)
    (name : String) (synthesized : Descriptor) :
    (e.startingDescriptor target name synthesized).Stepwise S := by
  unfold startingDescriptor
  rw [hs]
  split
  · exact Stepwise.pure synthesized
  · exact (Store.stepwise_install target name synthesized).bind fun _ =>
      (Store.stepwise_readBack target.object name).bind fun _ => Stepwise.pure _

theorem stepwise_evaluateUnit (hc : e.caller.Stepwise S) (hs : e.store = Store.ordinary σ)
    (pair : ClassPair) (env : Environment) (u : ElementUnit) :
    (e.evaluateUnit pair env u).Stepwise S := by
  refine (Stepwise.report _).bind fun _ =>
    (Placement.stepwise_resolve _).bind fun target =>
    (Decorator.stepwise_collect hc env u.decorators).bind fun decorators =>
    (u.stepwise_source hc env).bind fun source => ?_
  dsimp only
  split
  · rw [hs]
    exact Store.stepwise_install target u.name _
  · exact (stepwise_startingDescriptor hs target u.name _).bind fun start =>
      stepwise_decorateFrom hc hs target u.name decorators start

theorem stepwise_evaluateUnits (hc : e.caller.Stepwise S) (hs : e.store = Store.ordinary σ)
    (pair : ClassPair) (env : Environment) (units : List ElementUnit) :
    (e.evaluateUnits pair env units).Stepwise S := by
  induction units with
  | nil => exact Stepwise.pure ()
  | cons u rest ih => exact (stepwise_evaluateUnit hc hs pair env u).bind fun _ => ih

theorem stepwise_evaluateClass (hc : e.caller.Stepwise S) (hs : e.store = Store.ordinary σ)
    (decl : ClassDecl) (env : Environment) : (e.evaluateClass decl env).Stepwise S := by
  refine (Stepwise.report _).bind fun _ => Stepwise.bind ?_ fun members =>
    (stepwise_decorateClass hc members.1 env decl.decorators).bind fun _ =>
    (Stepwise.report _).bind fun _ => Stepwise.pure members.1.constructor
  exact (ClassPair.stepwise_create decl.name).bind fun pair =>
    (Stepwise.ofExcept _).bind fun units =>
    (stepwise_evaluateUnits hc hs pair env units).bind fun _ => Stepwise.pure (pair, units)

theorem stepwise_propertyDescriptor (hc : e.caller.Stepwise S) (hs : e.store = Store.ordinary σ)
    (target : ObjectId) (env : Environment) (p : LiteralProperty) :
    (e.propertyDescriptor target env p).Stepwise S := by
  have halves : (e.existingHalves target p.key).Stepwise S := by
    unfold existingHalves
    rw [hs]
    refine (Store.stepwise_readBack target p.key).bind fun found => ?_
    split <;> exact Stepwise.pure _
  unfold propertyDescriptor
  split
  · exact ((Expr.stepwise_evaluate hc env _).mapFault _).bind fun _ => Stepwise.pure _
  · exact (Capability.stepwise_function _).bind fun _ => Stepwise.pure _
  · exact halves.bind fun _ => (Capability.stepwise_function _).bind fun _ => Stepwise.pure _
  · exact halves.bind fun _ => (Capability.stepwise_function _).bind fun _ => Stepwise.pure _

theorem stepwise_decorateProperty (hc : e.caller.Stepwise S) (hs : e.store = Store.ordinary σ)
    (target : Target) (env : Environment) (p : LiteralProperty) :
    (e.decorateProperty target env p).Stepwise S := by
  refine (Stepwise.report _).bind fun _ => Stepwise.checked fun _ =>
    (Decorator.stepwise_collect hc env p.decorators).bind fun decorators =>
    (Chain.stepwise_fallback hc target p.key .undefined _).bind fun result => ?_
  split
  · exact Stepwise.report _
  · rw [hs]
    exact ((Descriptor.stepwise_ofValue hc result).mapFault _).bind fun d =>
      Store.stepwise_install target p.key d

theorem stepwise_evaluateProperties (hc : e.caller.Stepwise S) (hs : e.store = Store.ordinary σ)
    (target : Target) (env : Environment) (properties : List LiteralProperty) :
    (e.evaluateProperties target env properties).Stepwise S := by
  induction properties with
  | nil => exact Stepwise.pure ()
  | cons p rest ih =>
    refine Stepwise.bind ?_ fun _ => ih
    unfold evaluateProperty
    split
    · rw [hs]
      exact (stepwise_propertyDescriptor hc hs target.object env p).bind fun d =>
        Store.stepwise_install target p.key d
    · exact stepwise_decorateProperty hc hs target env p

theorem stepwise_evaluateLiteral (hc : e.caller.Stepwise S) (hs : e.store = Store.ordinary σ)
    (literal : ObjectLiteral) (env : Environment) : (e.evaluateLiteral literal env).Stepwise S :=
  (Stepwise.report _).bind fun _ =>
    (Stepwise.onHeap fun _ => Heap.Step.progress (.created rfl)).bind fun object =>
    (Placement.stepwise_resolve _).bind fun target =>
    (stepwise_evaluateProperties hc hs target env literal.properties).bind fun _ =>
    Stepwise.pure object

end Engine
end Decoration
