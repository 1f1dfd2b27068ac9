import Decoration.Config
import Decoration.DecorationFault
import Decoration.Declaration
import Decoration.Environment

/-! The units of a class body: one descriptor, one chain and one definition each. A getter and a setter
of one slot form a unit together. -/

namespace Decoration

inductive UnitShape where
  | method (body : Capability)
  | field (initializer : Option Expr)
  | accessor (getter setter : Option Capability)
deriving DecidableEq, Repr

structure ElementUnit where
  name : String
  isStatic : Bool
  decorators : List DecoratorExpr
  shape : UnitShape
deriving DecidableEq, Repr

inductive UnitSource where
  | value (value : Value)
  | accessor (getter setter : Option Value)
deriving DecidableEq, Repr

namespace UnitShape

def kindName : UnitShape → String
  | method _ => "method"
  | field _ => "field"
  | accessor .. => "accessor"

end UnitShape

namespace ClassElement

def unit (e : ClassElement) : ElementUnit :=
  { name := e.name, isStatic := e.isStatic, decorators := e.decorators,
    shape :=
      match e.kind with
      | .method body => .method body
      | .field initializer => .field initializer
      | .getter body => .accessor (some body) none
      | .setter body => .accessor none (some body) }

end ClassElement

namespace ElementUnit

/-- The shape with the half that an element adds, if the unit is an accessor that lacks it. -/
def completed? (u : ElementUnit) (e : ClassElement) : Option UnitShape :=
  match u.shape, e.kind with
  | .accessor none setter, .getter body => some (.accessor (some body) setter)
  | .accessor getter none, .setter body => some (.accessor getter (some body))
  | _, _ => none

def complete (u : ElementUnit) (e : ClassElement) (shape : UnitShape) :
    Except DecorationFault ElementUnit :=
  if e.decorators.isEmpty then .ok { u with shape }
  else if u.decorators.isEmpty then .ok { u with shape, decorators := e.decorators }
  else .error (.bothHalvesDecorated e.name)

variable {σ : Type}

def source (caller : Caller σ) (env : Environment) (u : ElementUnit) :
    Action σ DecorationFault UnitSource :=
  match u.shape with
  | .method body => return .value (.object (← body.function))
  | .field none => return .value .undefined
  | .field (some initializer) =>
    return .value (← (initializer.evaluate caller env).mapFault fun _ => .initializer u.name)
  | .accessor getter setter => do
    let getter ← getter.mapM Capability.function
    let setter ← setter.mapM Capability.function
    return .accessor (getter.map .object) (setter.map .object)

end ElementUnit

/-- The units of the elements so far, and for every slot that came up the place of its latest unit. -/
structure UnitPlan where
  units : Array ElementUnit := #[]
  places : List ((String × Bool) × Nat) := []

namespace UnitPlan

def latest? (p : UnitPlan) (e : ClassElement) : Option (Nat × ElementUnit) := do
  let place ← p.places.lookup (e.name, e.isStatic)
  return (place, ← p.units[place]?)

def start (p : UnitPlan) (e : ClassElement) : UnitPlan :=
  { units := p.units.push e.unit, places := ((e.name, e.isStatic), p.units.size) :: p.places }

def add (p : UnitPlan) (e : ClassElement) : Except DecorationFault UnitPlan :=
  match p.latest? e with
  | none => .ok (p.start e)
  | some (place, u) =>
    match u.completed? e with
    | none => .ok (p.start e)
    | some shape =>
      (u.complete e shape).map fun done => { p with units := p.units.setIfInBounds place done }

end UnitPlan

def ElementUnit.ofElements (elements : List ClassElement) : Except DecorationFault (List ElementUnit) :=
  (elements.foldlM UnitPlan.add {}).map (·.units.toList)

def UnitSource.descriptor (config : Config) : UnitSource → Descriptor
  | value v =>
    .data v config.elements.writable config.elements.enumerable config.elements.configurable
  | accessor getter setter =>
    .accessor getter setter config.accessors.enumerable config.accessors.configurable

end Decoration
