import Decoration.Json
import Decoration.Number.Decimal

/-! JSON text without spaces. -/

namespace Decoration.Json

def hexQuad (c : Char) : List Char :=
  let digits := Nat.toDigits 16 c.toNat
  ['\\', 'u'] ++ List.replicate (4 - digits.length) '0' ++ digits

def escaped (c : Char) : List Char :=
  if c = '"' then ['\\', '"']
  else if c = '\\' then ['\\', '\\']
  else if c = '\n' then ['\\', 'n']
  else if c = '\r' then ['\\', 'r']
  else if c = '\t' then ['\\', 't']
  else if c = '\x08' then ['\\', 'b']
  else if c = '\x0c' then ['\\', 'f']
  else if c.toNat < 32 then hexQuad c
  else [c]

def quoted (s : String) : String :=
  String.ofList ('"' :: s.toList.flatMap escaped ++ ['"'])

/-- A real is positional while its leading digit stands at `10 ^ -5` to `10 ^ 15`, then with a
decimal point always; beyond that it has an exponent. -/
def realText : Number → String
  | .finite negative magnitude =>
    let d := Number.shortest .even magnitude.val
    let order : Int := (Nat.toDigits 10 d.digits).length + d.exponent - 1
    Number.signed negative <|
      if -5 ≤ order ∧ order ≤ 15 then
        d.positional ++ if 0 ≤ d.exponent then ".0" else ""
      else d.scientific
  | _ => "null"

mutual

def text : Json → String
  | null => "null"
  | bool value => if value then "true" else "false"
  | integer value => toString value
  | real value => realText value
  | string value => quoted value
  | array items => "[" ++ ",".intercalate (itemTexts items) ++ "]"
  | object members => "\x7b" ++ ",".intercalate (memberTexts members) ++ "\x7d"

def itemTexts : List Json → List String
  | [] => []
  | item :: rest => text item :: itemTexts rest

def memberTexts : List (String × Json) → List String
  | [] => []
  | member :: rest => memberText member :: memberTexts rest

def memberText : String × Json → String
  | (key, value) => quoted key ++ ":" ++ text value

end

end Decoration.Json
