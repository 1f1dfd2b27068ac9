import Decoration.Json

/-! A manifest: specifications of classes and objects in the order of their evaluation. -/

namespace Decoration

inductive DecoratorSpec where
  | bare (name : String)
  | call (name : String) (arguments : List Json)
deriving Repr

/-- A member names exactly one of method, getter, setter and field when it is valid. -/
structure MemberSpec where
  method : Option String := none
  getter : Option String := none
  setter : Option String := none
  field : Option String := none
  isStatic : Bool := false
  returns : Json := .null
  value : Option Json := none
  decorators : List DecoratorSpec := []
deriving Repr

structure ClassSpec where
  name : String
  decorators : List DecoratorSpec := []
  members : List MemberSpec := []
deriving Repr

inductive PropertySpecKind where
  | init
  | method
  | getter
  | setter
deriving DecidableEq, Repr

structure PropertySpec where
  name : String
  kind : PropertySpecKind := .init
  value : Json := .null
  decorators : List DecoratorSpec := []
deriving Repr

structure ObjectSpec where
  name : String
  properties : List PropertySpec := []
deriving Repr

inductive DeclarationSpec where
  | classSpec (spec : ClassSpec)
  | objectSpec (spec : ObjectSpec)
deriving Repr

structure Manifest where
  declarations : List DeclarationSpec
deriving Repr

end Decoration
