import Decoration.DecorationFault
import Decoration.Environment
import Decoration.Event

/-! Decorator lists: they are evaluated from the top and run from the bottom. A member or class chain
edits in place and ignores results; a fallback chain carries the latest truthy result. -/

namespace Decoration

variable {σ : Type}

namespace Decorator

def collectOne (caller : Caller σ) (env : Environment) (d : DecoratorExpr) :
    Action σ DecorationFault Decorator := do
  let label := d.label
  let evaluated {α : Type} (x : Action σ Fault α) : Action σ DecorationFault α :=
    x.mapFault fun _ => .evaluation label
  let callee ← evaluated (d.callee.evaluate caller env)
  match (← Action.heap).capability? callee with
  | none => Action.fail (.evaluation label (.type (.notConstructor d.callee.text)))
  | some capability =>
    let extra ← evaluated (d.arguments.mapM (·.evaluate caller env))
    Action.report (.decoratorCollected label extra.length)
    return { label, capability, extra }

def collect (caller : Caller σ) (env : Environment) (list : List DecoratorExpr) :
    Action σ DecorationFault (List Decorator) :=
  list.mapM (collectOne caller env)

def site (h : Heap) (target : Target) : Option String → String
  | some name => h.describe target.object ++ "." ++ name
  | none => h.describe target.object

def construct (caller : Caller σ) (d : Decorator) (target : Target) (name : Option String)
    (arguments : List Value) : Action σ DecorationFault Value := do
  let all := arguments ++ d.extra
  Action.emit (.construction d all)
  (caller d.capability .construct all).mapFault fun h => .invocation d.label (site h target name)

end Decorator

def bottomUp (list : List Decorator) : List (Decorator × Nat) := list.zipIdx.reverse

theorem bottomUp_eq (list : List Decorator) : bottomUp list = list.zipIdx.reverse := rfl

namespace Chain

/-- Runs a member chain from the bottom up; all decorators share one handle. -/
def member (caller : Caller σ) (target : Target) (name : String) (handle : Handle) :
    List (Decorator × Nat) → Action σ DecorationFault Unit
  | [] => pure ()
  | (d, position) :: rest => do
    let content := (← Action.heap).content handle
    Action.emit (.invocation
      { decorator := d, target, name := some name, descriptor := some content,
        accumulator := none, discipline := .mutation, position })
    Action.report (.memberInvocation d.label target.kind name position)
    let _ ← d.construct caller target (some name)
      [target.value, .string name, .descriptor handle]
    member caller target name handle rest

def classLevel (caller : Caller σ) (target : Target) :
    List (Decorator × Nat) → Action σ DecorationFault Unit
  | [] => pure ()
  | (d, position) :: rest => do
    Action.emit (.invocation
      { decorator := d, target, name := none, descriptor := none,
        accumulator := none, discipline := .mutation, position })
    Action.report (.classInvocation d.label target.kind position)
    let _ ← d.construct caller target none [target.value]
    classLevel caller target rest

/-- Runs a fallback chain from the bottom up: a truthy result replaces the running value. -/
def fallback (caller : Caller σ) (target : Target) (name : String) (running : Value) :
    List (Decorator × Nat) → Action σ DecorationFault Value
  | [] => pure running
  | (d, position) :: rest => do
    Action.emit (.invocation
      { decorator := d, target, name := some name, descriptor := none,
        accumulator := some running, discipline := .fallback, position })
    Action.report (.literalInvocation d.label name position)
    let result ← d.construct caller target (some name) [target.value, .string name, running]
    fallback caller target name (if result.isTruthy then result else running) rest

end Chain

def applyMemberChain (caller : Caller σ) (list : List Decorator) (target : Target) (name : String)
    (handle : Handle) : Action σ DecorationFault Unit :=
  Chain.member caller target name handle (bottomUp list)

def applyClassChain (caller : Caller σ) (list : List Decorator) (target : Target) :
    Action σ DecorationFault Unit :=
  Chain.classLevel caller target (bottomUp list)

def applyFallbackChain (caller : Caller σ) (list : List Decorator) (target : Target)
    (name : String) : Action σ DecorationFault Value :=
  Chain.fallback caller target name .undefined (bottomUp list)

end Decoration
