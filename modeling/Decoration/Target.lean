import Decoration.Value

/-! The object that a decorator chain works on. It follows from the place of the declaration alone. -/

namespace Decoration

inductive TargetKind where
  | prototype
  | constructor
  | object
deriving DecidableEq, Repr

namespace TargetKind

def text : TargetKind → String
  | prototype => "prototype"
  | constructor => "constructor"
  | object => "object"

end TargetKind

structure Target where
  kind : TargetKind
  object : ObjectId
deriving DecidableEq, Repr

namespace Target

def value (t : Target) : Value := .object t.object

end Target

structure ClassPair where
  constructor : ObjectId
  prototype : ObjectId
deriving DecidableEq, Repr

inductive Placement where
  | classElement (pair : ClassPair) (isStatic : Bool)
  | classItself (pair : ClassPair)
  | literalProperty (object : ObjectId)

namespace Placement

def targetKind : Placement → TargetKind
  | classElement _ false => .prototype
  | classElement _ true => .constructor
  | classItself _ => .constructor
  | literalProperty _ => .object

def target : Placement → Target
  | classElement pair false => ⟨.prototype, pair.prototype⟩
  | classElement pair true => ⟨.constructor, pair.constructor⟩
  | classItself pair => ⟨.constructor, pair.constructor⟩
  | literalProperty object => ⟨.object, object⟩

end Placement
end Decoration
