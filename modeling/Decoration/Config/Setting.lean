import Decoration.Config
import Decoration.Setting

/-! A configuration read from settings. Every field has a default, unknown ones are refused. -/

namespace Decoration

open Setting (Notation fields? flag? name?)

def DescriptorSource.ofName? : String → Option DescriptorSource
  | "synthesize" => some .synthesize
  | "read-back" => some .readBack
  | _ => none

def ElementAttributes.ofSetting? (n : Notation) (s : Setting) : Option ElementAttributes := do
  let field ← fields? n ["writable", "enumerable", "configurable"] s
  return {
    writable := ← (field "writable").elim (some true) flag?
    enumerable := ← (field "enumerable").elim (some false) flag?
    configurable := ← (field "configurable").elim (some true) flag? }

def AccessorAttributes.ofSetting? (n : Notation) (s : Setting) : Option AccessorAttributes := do
  let field ← fields? n ["enumerable", "configurable"] s
  return {
    enumerable := ← (field "enumerable").elim (some false) flag?
    configurable := ← (field "configurable").elim (some true) flag? }

def EngineOptions.ofSetting? (n : Notation) (s : Setting) : Option EngineOptions := do
  let field ← fields? n ["descriptor-source", "object-literal-decorators"] s
  let source (s : Setting) := (name? n s).bind DescriptorSource.ofName?
  return {
    descriptorSource := ← (field "descriptor-source").elim (some .synthesize) source
    literalDecorators := ← (field "object-literal-decorators").elim (some true) flag? }

def Config.ofSetting? (n : Notation) (s : Setting) : Option Config := do
  let field ← fields? n ["elements", "accessors", "engine"] s
  return {
    elements := ← (field "elements").elim (some {}) (ElementAttributes.ofSetting? n)
    accessors := ← (field "accessors").elim (some {}) (AccessorAttributes.ofSetting? n)
    engine := ← (field "engine").elim (some {}) (EngineOptions.ofSetting? n) }

end Decoration
