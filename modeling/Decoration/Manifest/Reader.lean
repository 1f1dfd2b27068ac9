import Decoration.Json.Fields
import Decoration.Json.Reader
import Decoration.Manifest

/-! Manifests from JSON text. -/

namespace Decoration

open Json (fields? string? bool? list? optional?)

def DecoratorSpec.ofJson? : Json → Option DecoratorSpec
  | .string name => some (.bare name)
  | .object members => do
    let field ← fields? ["name", "args"] 1 (.object members)
    return .call (← (← field "name").string?)
      (← (field "args").elim (some []) (list? fun item => some item.canonical))
  | _ => none

def decoratorsField? : Option Json → Option (List DecoratorSpec) :=
  (·.elim (some []) (list? DecoratorSpec.ofJson?))

def MemberSpec.ofJson? (json : Json) : Option MemberSpec := do
  let field ← fields? ["method", "getter", "setter", "field", "static", "returns", "value",
    "decorators"] 7 json
  let name (key : String) : Option (Option String) :=
    (field key).elim (some none) (optional? string?)
  return {
    method := ← name "method"
    getter := ← name "getter"
    setter := ← name "setter"
    field := ← name "field"
    isStatic := ← (field "static").elim (some false) bool?
    returns := ((field "returns").getD .null).canonical
    value := ← (field "value").elim (some none) (optional? fun value => some value.canonical)
    decorators := ← decoratorsField? (field "decorators") }

def ClassSpec.ofJson? (json : Json) : Option ClassSpec := do
  let field ← fields? ["class", "decorators", "members"] 1 json
  return {
    name := ← (← field "class").string?
    decorators := ← decoratorsField? (field "decorators")
    members := ← (field "members").elim (some []) (list? MemberSpec.ofJson?) }

def PropertySpecKind.ofName? : String → Option PropertySpecKind
  | "init" => some .init
  | "method" => some .method
  | "getter" => some .getter
  | "setter" => some .setter
  | _ => none

def PropertySpecKind.ofJson? : Json → Option PropertySpecKind
  | .string name => ofName? name
  | .object [(name, .null)] => ofName? name
  | _ => none

def PropertySpec.ofJson? (json : Json) : Option PropertySpec := do
  let field ← fields? ["name", "kind", "value", "decorators"] 1 json
  return {
    name := ← (← field "name").string?
    kind := ← (field "kind").elim (some .init) PropertySpecKind.ofJson?
    value := ((field "value").getD .null).canonical
    decorators := ← decoratorsField? (field "decorators") }

def ObjectSpec.ofJson? (json : Json) : Option ObjectSpec := do
  let field ← fields? ["object", "properties"] 1 json
  return {
    name := ← (← field "object").string?
    properties := ← (field "properties").elim (some []) (list? PropertySpec.ofJson?) }

/-- What can be read as a class is one. -/
def DeclarationSpec.ofJson? (json : Json) : Option DeclarationSpec :=
  match ClassSpec.ofJson? json with
  | some spec => some (.classSpec spec)
  | none => (ObjectSpec.ofJson? json).map .objectSpec

namespace Manifest

def ofJson? (json : Json) : Option Manifest := do
  let field ← fields? ["declarations"] 1 json
  return { declarations := ← list? DeclarationSpec.ofJson? (← field "declarations") }

def read? (text : String) : Option Manifest := (Json.read? text).bind ofJson?

end Manifest
end Decoration
