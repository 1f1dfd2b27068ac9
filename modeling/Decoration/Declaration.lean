import Decoration.Capability
import Decoration.Expr

/-! Declarations as they are written: classes with their elements, and object literals. Decorators are
listed topmost first. -/

namespace Decoration

inductive ElementKind where
  | method (body : Capability)
  | getter (body : Capability)
  | setter (body : Capability)
  | field (initializer : Option Expr)
deriving DecidableEq, Repr

structure ClassElement where
  name : String
  isStatic : Bool := false
  decorators : List DecoratorExpr := []
  kind : ElementKind
deriving DecidableEq, Repr

structure ClassDecl where
  name : String
  decorators : List DecoratorExpr := []
  elements : List ClassElement := []
deriving DecidableEq, Repr

inductive PropertyKind where
  | init (value : Expr)
  | method (body : Capability)
  | getter (body : Capability)
  | setter (body : Capability)
deriving DecidableEq, Repr

structure LiteralProperty where
  key : String
  decorators : List DecoratorExpr := []
  kind : PropertyKind
deriving DecidableEq, Repr

structure ObjectLiteral where
  properties : List LiteralProperty := []
deriving DecidableEq, Repr

inductive Declaration where
  | ofClass (decl : ClassDecl)
  | ofLiteral (name : String) (literal : ObjectLiteral)
deriving DecidableEq, Repr

namespace Declaration

def keyword : Declaration → String
  | ofClass _ => "class"
  | ofLiteral .. => "object"

def name : Declaration → String
  | ofClass decl => decl.name
  | ofLiteral name _ => name

def decoratorCount : Declaration → Nat
  | ofClass decl =>
    decl.elements.foldl (fun n e => n + e.decorators.length) decl.decorators.length
  | ofLiteral _ literal => literal.properties.foldl (fun n p => n + p.decorators.length) 0

end Declaration

end Decoration
