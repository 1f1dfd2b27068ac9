import Decoration.Target

/-! Diagnostic reports of an evaluation: spans that are entered, and events with a message. -/

namespace Decoration

inductive Report where
  | classEntered (name : String)
  | elementEntered (name kind : String) (isStatic : Bool)
  | literalEntered (properties : Nat)
  | propertyEntered (name : String)
  | targetResolved (kind : TargetKind)
  | decoratorCollected (label : String) (arguments : Nat)
  | memberInvocation (label : String) (kind : TargetKind) (name : String) (position : Nat)
  | classInvocation (label : String) (kind : TargetKind) (position : Nat)
  | literalInvocation (label name : String) (position : Nat)
  | installing (target name shape : String) (enumerable configurable : Bool)
  | classEvaluated (elements decorators : Nat)
  | nothingProduced
  | deprecatedCall (method message : String)
deriving DecidableEq, Repr

namespace Report

inductive Level where
  | warn
  | debug
  | trace
deriving DecidableEq, Repr

namespace Level

def name : Level → String
  | warn => "WARN"
  | debug => "DEBUG"
  | trace => "TRACE"

def rank : Level → Nat
  | warn => 0
  | debug => 1
  | trace => 2

end Level

inductive Field where
  | text (value : String)
  | count (value : Nat)
  | flag (value : Bool)
deriving DecidableEq, Repr

inductive Heading where
  | event (message : String)
  | span (name : String)
deriving DecidableEq, Repr

def level : Report → Level
  | targetResolved _ | decoratorCollected .. | memberInvocation .. | classInvocation ..
  | literalInvocation .. => .trace
  | deprecatedCall .. => .warn
  | _ => .debug

def heading : Report → Heading
  | classEntered _ => .span "class"
  | elementEntered .. => .span "element"
  | literalEntered _ => .span "object_literal"
  | propertyEntered _ => .span "literal_property"
  | targetResolved _ => .event "resolved target"
  | decoratorCollected .. => .event "collected decorator"
  | memberInvocation .. => .event "invoking member decorator"
  | classInvocation .. => .event "invoking class decorator"
  | literalInvocation .. => .event "invoking object literal decorator"
  | installing .. => .event "installing property"
  | classEvaluated .. => .event "class evaluated"
  | nothingProduced => .event "decorators produced no descriptor; property not installed"
  | deprecatedCall method message => .event ("DEPRECATION " ++ method ++ ": " ++ message)

def fields : Report → List (String × Field)
  | classEntered name => [("name", .text name)]
  | elementEntered name kind isStatic =>
    [("name", .text name), ("kind", .text kind), ("is_static", .flag isStatic)]
  | literalEntered properties => [("properties", .count properties)]
  | propertyEntered name => [("name", .text name)]
  | targetResolved kind => [("kind", .text kind.text)]
  | decoratorCollected label arguments => [("decorator", .text label), ("args", .count arguments)]
  | memberInvocation label kind name position =>
    [("decorator", .text label), ("target_kind", .text kind.text), ("name", .text name),
      ("position", .count position)]
  | classInvocation label kind position =>
    [("decorator", .text label), ("target_kind", .text kind.text), ("position", .count position)]
  | literalInvocation label name position =>
    [("decorator", .text label), ("name", .text name), ("position", .count position)]
  | installing target name shape enumerable configurable =>
    [("target_object", .text target), ("name", .text name), ("shape", .text shape),
      ("enumerable", .flag enumerable), ("configurable", .flag configurable)]
  | classEvaluated elements decorators =>
    [("elements", .count elements), ("class_decorators", .count decorators)]
  | nothingProduced => []
  | deprecatedCall method _ => [("method", .text method)]

end Report
end Decoration
