/-! The configuration of an engine. -/

namespace Decoration

/-- Where a member chain gets the descriptor it starts from: made from the element, or installed first
and then read back. -/
inductive DescriptorSource where
  | synthesize
  | readBack
deriving DecidableEq, Repr

structure ElementAttributes where
  writable : Bool := true
  enumerable : Bool := false
  configurable : Bool := true
deriving DecidableEq, Repr, Inhabited

structure AccessorAttributes where
  enumerable : Bool := false
  configurable : Bool := true
deriving DecidableEq, Repr, Inhabited

structure EngineOptions where
  descriptorSource : DescriptorSource := .synthesize
  literalDecorators : Bool := true
deriving DecidableEq, Repr

structure Config where
  elements : ElementAttributes := {}
  accessors : AccessorAttributes := {}
  engine : EngineOptions := {}
deriving DecidableEq, Repr

end Decoration
