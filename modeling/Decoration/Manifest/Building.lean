import Decoration.Declaration
import Decoration.Json.Writer
import Decoration.Manifest
import Decoration.Environment
import Decoration.Number.Rounding

/-! Declarations built from their specifications. Arguments and results are literals. -/

namespace Decoration

inductive BuildFault where
  | argumentNotLiteral (value : Json)
  | resultNotLiteral (value : Json)
  | memberKind
deriving Repr

def BuildFault.message : BuildFault → String
  | argumentNotLiteral value => "only literal arguments are supported, got " ++ value.text
  | resultNotLiteral value => "only literal return values are supported, got " ++ value.text
  | memberKind => "member must name exactly one of method, getter, setter or field"

namespace Json

def literal? : Json → Option Literal
  | null => some .null
  | bool value => some (.bool value)
  | integer value => some (.number (Number.ofInt value))
  | real value => some (.number value)
  | string value => some (.string value)
  | array _ | object _ => none

def argument (value : Json) : Except BuildFault Expr :=
  match value.literal? with
  | some literal => .ok (.literal literal)
  | none => .error (.argumentNotLiteral value)

def result (value : Json) : Except BuildFault Value :=
  match value.literal? with
  | some literal => .ok literal.value
  | none => .error (.resultNotLiteral value)

end Json

def DecoratorSpec.build : DecoratorSpec → Except BuildFault DecoratorExpr
  | bare name => .ok { callee := Expr.path name }
  | call name arguments => do
    return { callee := Expr.path name, arguments := ← arguments.mapM Json.argument }

def constantBody (name : String) (result : Json) : Except BuildFault Capability :=
  result.result.map (.constant name)

def MemberSpec.element (m : MemberSpec) : Except BuildFault (String × ElementKind) :=
  match m.method, m.getter, m.setter, m.field with
  | some name, none, none, none => do return (name, .method (← constantBody name m.returns))
  | none, some name, none, none => do return (name, .getter (← constantBody name m.returns))
  | none, none, some name, none => .ok (name, .setter (.constant name .null))
  | none, none, none, some name => do return (name, .field (← m.value.mapM Json.argument))
  | _, _, _, _ => .error .memberKind

def MemberSpec.build (m : MemberSpec) : Except BuildFault ClassElement := do
  let (name, kind) ← m.element
  return { name, isStatic := m.isStatic, decorators := ← m.decorators.mapM DecoratorSpec.build, kind }

def ClassSpec.build (c : ClassSpec) : Except BuildFault ClassDecl := do
  return {
    name := c.name
    decorators := ← c.decorators.mapM DecoratorSpec.build
    elements := ← c.members.mapM MemberSpec.build }

def PropertySpec.propertyKind (p : PropertySpec) : Except BuildFault PropertyKind :=
  match p.kind with
  | .init => p.value.argument.map .init
  | .method => (constantBody p.name p.value).map .method
  | .getter => (constantBody p.name p.value).map .getter
  | .setter => .ok (.setter (.constant p.name .null))

def PropertySpec.build (p : PropertySpec) : Except BuildFault LiteralProperty := do
  let kind ← p.propertyKind
  return { key := p.name, decorators := ← p.decorators.mapM DecoratorSpec.build, kind }

def ObjectSpec.build (o : ObjectSpec) : Except BuildFault ObjectLiteral := do
  return { properties := ← o.properties.mapM PropertySpec.build }

def DeclarationSpec.build : DeclarationSpec → Except BuildFault Declaration
  | classSpec spec => spec.build.map .ofClass
  | objectSpec spec => spec.build.map (.ofLiteral spec.name)

end Decoration
