import Decoration.Engine

/-! Evaluating a class: its two objects, then its elements in order, then its own decorators. -/

namespace Decoration

variable {σ : Type}

namespace ClassPair

/-- The constructor and the prototype of a class, linked to each other. The link to the prototype can
never change. -/
def create (name : String) : Action σ ε ClassPair :=
  Action.onHeap fun h =>
    let (prototype, h) := h.addObject {}
    let (constructor, h) := h.addObject { kind := .classValue name }
    let h := h.setObject constructor ((h.object constructor).insert "prototype"
      (.data (.object prototype) false false false))
    let h := h.setObject prototype ((h.object prototype).insert "constructor"
      (.data (.object constructor) true false true))
    ({ constructor, prototype }, h)

end ClassPair

namespace Engine

def startingDescriptor (e : Engine σ) (target : Target) (name : String) (synthesized : Descriptor) :
    Action σ DecorationFault Descriptor := do
  match e.config.engine.descriptorSource with
  | .synthesize => pure synthesized
  | .readBack => do
    e.store.install target name synthesized
    return (← e.store.readBack target.object name).getD synthesized

def decorateFrom (e : Engine σ) (target : Target) (name : String) (decorators : List Decorator)
    (start : Descriptor) : Action σ DecorationFault Unit := do
  let handle ← Action.onHeap (·.addCell start)
  applyMemberChain e.caller decorators target name handle
  e.store.install target name ((← Action.heap).content handle)

def decorateUnit (e : Engine σ) (target : Target) (name : String) (decorators : List Decorator)
    (synthesized : Descriptor) : Action σ DecorationFault Unit := do
  e.decorateFrom target name decorators (← e.startingDescriptor target name synthesized)

def evaluateUnit (e : Engine σ) (pair : ClassPair) (env : Environment) (u : ElementUnit) :
    Action σ DecorationFault Unit := do
  Action.report (.elementEntered u.name u.shape.kindName u.isStatic)
  let target ← (Placement.classElement pair u.isStatic).resolve
  let decorators ← Decorator.collect e.caller env u.decorators
  let synthesized := (← u.source e.caller env).descriptor e.config
  if decorators.isEmpty then e.store.install target u.name synthesized
  else e.decorateUnit target u.name decorators synthesized

def evaluateUnits (e : Engine σ) (pair : ClassPair) (env : Environment) :
    List ElementUnit → Action σ DecorationFault Unit
  | [] => pure ()
  | u :: rest => do
    e.evaluateUnit pair env u
    e.evaluateUnits pair env rest

def evaluateMembers (e : Engine σ) (decl : ClassDecl) (env : Environment) :
    Action σ DecorationFault (ClassPair × List ElementUnit) := do
  let pair ← ClassPair.create decl.name
  let units ← Action.ofExcept (ElementUnit.ofElements decl.elements)
  e.evaluateUnits pair env units
  return (pair, units)

def decorateClass (e : Engine σ) (pair : ClassPair) (env : Environment)
    (list : List DecoratorExpr) : Action σ DecorationFault (List Decorator) := do
  let decorators ← Decorator.collect e.caller env list
  if decorators.isEmpty then return decorators
  else
    let target ← (Placement.classItself pair).resolve
    applyClassChain e.caller decorators target
    return decorators

def evaluateClass (e : Engine σ) (decl : ClassDecl) (env : Environment) :
    Action σ DecorationFault ObjectId := do
  Action.report (.classEntered decl.name)
  let (pair, units) ← e.evaluateMembers decl env
  let decorators ← e.decorateClass pair env decl.decorators
  Action.report (.classEvaluated units.length decorators.length)
  return pair.constructor

def defineClass (e : Engine σ) (decl : ClassDecl) (env : Environment) :
    Action σ DecorationFault (ObjectId × Environment) := do
  let constructor ← e.evaluateClass decl env
  return (constructor, env.bind decl.name (.object constructor))

end Engine
end Decoration
