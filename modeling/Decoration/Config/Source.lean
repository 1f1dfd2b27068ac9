import Decoration.Config.Setting
import Decoration.Json
import Decoration.Toml.Document

/-! Configurations from TOML text and from JSON values. -/

namespace Decoration

namespace Json

mutual

def setting : Json → Setting
  | null => .blank
  | bool value => .flag value
  | string value => .text value
  | array items => .list (itemSettings items)
  | object members => .table (memberSettings members)
  | integer _ | real _ => .other

def itemSettings : List Json → List Setting
  | [] => []
  | item :: rest => setting item :: itemSettings rest

def memberSettings : List (String × Json) → List (String × Setting)
  | [] => []
  | member :: rest => memberSetting member :: memberSettings rest

def memberSetting : String × Json → String × Setting
  | (key, value) => (key, setting value)

end

/-- A list has no more items than the table that it stands for has fields, and a name that is written
as a key has `null` under it. -/
def settings : Setting.Notation where
  allowsSurplus := false
  isNothing
    | .blank => true
    | _ => false

end Json

namespace Config

def ofToml? (text : String) : Option Config :=
  (Toml.read? text).bind (ofSetting? Toml.settings)

def ofJson? (value : Json) : Option Config := ofSetting? Json.settings value.setting

end Config
end Decoration
