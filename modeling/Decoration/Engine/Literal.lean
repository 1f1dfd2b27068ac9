import Decoration.Descriptor.Conversion
import Decoration.Engine.Class

/-! Evaluating an object literal, property by property, and then a declaration of either kind. -/

namespace Decoration.Engine

variable {σ : Type}

def existingHalves (e : Engine σ) (target : ObjectId) (key : String) :
    Action σ DecorationFault (Option Value × Option Value) := do
  match ← e.store.readBack target key with
  | some (.accessor getter setter ..) => pure (getter, setter)
  | _ => pure (none, none)

def propertyDescriptor (e : Engine σ) (target : ObjectId) (env : Environment)
    (p : LiteralProperty) : Action σ DecorationFault Descriptor := do
  match p.kind with
  | .init expr =>
    return .ordinary (← (expr.evaluate e.caller env).mapFault fun _ => .initializer p.key)
  | .method body => return .ordinary (.object (← body.function))
  | .getter body => do
    let (_, setter) ← e.existingHalves target p.key
    return .accessor (some (.object (← body.function))) setter true true
  | .setter body => do
    let (getter, _) ← e.existingHalves target p.key
    return .accessor getter (some (.object (← body.function))) true true

/-- Runs the decorators of a property. Its own value is not evaluated: only what the chain produces is
installed. -/
def decorateProperty (e : Engine σ) (target : Target) (env : Environment) (p : LiteralProperty) :
    Action σ DecorationFault Unit := do
  Action.report (.propertyEntered p.key)
  if !e.config.engine.literalDecorators then Action.fail (.literalDecoratorsDisabled p.key)
  let decorators ← Decorator.collect e.caller env p.decorators
  let result ← applyFallbackChain e.caller decorators target p.key
  if result.isUndefined then Action.report .nothingProduced
  else
    let d ← (Descriptor.ofValue e.caller result).mapFault fun h =>
      .installRejected p.key (h.describe target.object)
    e.store.install target p.key d

def evaluateProperty (e : Engine σ) (target : Target) (env : Environment) (p : LiteralProperty) :
    Action σ DecorationFault Unit := do
  if p.decorators.isEmpty then
    e.store.install target p.key (← e.propertyDescriptor target.object env p)
  else e.decorateProperty target env p

def evaluateProperties (e : Engine σ) (target : Target) (env : Environment) :
    List LiteralProperty → Action σ DecorationFault Unit
  | [] => pure ()
  | p :: rest => do
    e.evaluateProperty target env p
    e.evaluateProperties target env rest

def evaluateLiteral (e : Engine σ) (literal : ObjectLiteral) (env : Environment) :
    Action σ DecorationFault ObjectId := do
  Action.report (.literalEntered literal.properties.length)
  let object ← Action.onHeap (·.addObject {})
  let target ← (Placement.literalProperty object).resolve
  e.evaluateProperties target env literal.properties
  return object

def declare (e : Engine σ) (env : Environment) :
    Declaration → Action σ DecorationFault (ObjectId × Environment)
  | .ofClass decl => e.defineClass decl env
  | .ofLiteral name literal => do
    let object ← e.evaluateLiteral literal env
    return (object, env.bind name (.object object))

end Decoration.Engine
