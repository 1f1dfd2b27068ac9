import Decoration.Fault

/-! Why the evaluation of a declaration ends early. -/

namespace Decoration

inductive DecorationFault where
  | evaluation (expression : String) (source : Fault)
  | invocation (decorator site : String) (source : Fault)
  | installRejected (name target : String) (source : Fault)
  | bothHalvesDecorated (name : String)
  | literalDecoratorsDisabled (name : String)
  | initializer (name : String) (source : Fault)
deriving DecidableEq, Repr

inductive FailureKind where
  | evaluation
  | invocation
  | installRejected
deriving DecidableEq, Repr

namespace DecorationFault

def kind : DecorationFault → FailureKind
  | invocation .. => .invocation
  | installRejected .. => .installRejected
  | _ => .evaluation

def source? : DecorationFault → Option Fault
  | evaluation _ source | invocation _ _ source | installRejected _ _ source
  | initializer _ source => some source
  | bothHalvesDecorated _ | literalDecoratorsDisabled _ => none

def message : DecorationFault → String
  | evaluation expression source =>
    "cannot evaluate decorator `" ++ expression ++ "`: " ++ source.message
  | invocation decorator site source =>
    "decorator `" ++ decorator ++ "` failed on " ++ site ++ ": " ++ source.message
  | installRejected name target source =>
    "cannot install `" ++ name ++ "` on " ++ target ++ ": " ++ source.message
  | bothHalvesDecorated name =>
    "decorators cannot be applied to both the getter and the setter of `" ++ name ++ "`"
  | literalDecoratorsDisabled name =>
    "decorators on object literal properties are disabled (property `" ++ name ++ "`)"
  | initializer name source =>
    "cannot evaluate initializer of field `" ++ name ++ "`: " ++ source.message

end DecorationFault
end Decoration
