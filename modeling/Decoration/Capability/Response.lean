import Decoration.Capability.Edit

/-! The class decorators, and how all capabilities respond to a call. A caller knows the host's
functions, and is handed to them so that they can call back. -/

namespace Decoration

variable {σ : Type}

namespace Mark

def property (extra : List Value) : Mark → String × Value
  | annotated => ("annotated", .bool true)
  | isTestable => ("isTestable", extra.head?.getD .undefined)

def construct (caller : Caller σ) (mark : Mark) (arguments : List Value) :
    Action σ Fault Value := do
  match arguments.head?.bind Value.object? with
  | some target =>
    let (key, value) := mark.property (arguments.drop 1)
    target.put caller key value
    return .undefined
  | none => Action.fail (.type (.notClassTarget mark.name))

end Mark

/-- What a native function does: it is known by its code, and called with a receiver and arguments. -/
def Host (σ : Type) : Type := Caller σ → Nat → Value → List Value → Action σ Fault Value

def Host.none : Host σ := fun _ _ _ _ => pure .undefined

def Request.receiver : Request → Value
  | call receiver => receiver
  | construct => .undefined

def Capability.respond (host : Host σ) (inner : Caller σ) : Caller σ
  | native _ code, request, arguments => host inner code request.receiver arguments
  | constant _ result, _, _ => pure result
  | edit e, _, arguments => e.construct inner arguments
  | mark m, _, arguments => m.construct inner arguments
  | memoized _ memo site wrapped, request, arguments =>
    memo.call inner site wrapped request.receiver arguments
  | deprecated key message wrapped, request, arguments => do
    Action.report (.deprecatedCall key message)
    wrapped.call inner request.receiver arguments

namespace Caller

def nested (host : Host σ) : Nat → Caller σ
  | 0, _, _, _ => Action.exhausted
  | depth + 1, capability, request, arguments =>
    capability.respond host (nested host depth) request arguments

/-- No more calls than this are ever open at a time. -/
def depthLimit : Nat := 65536

def ofHost (host : Host σ) : Caller σ := nested host depthLimit

end Caller
end Decoration
