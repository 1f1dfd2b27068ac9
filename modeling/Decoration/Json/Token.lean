import Decoration.Json.Numeral

/-! The tokens of JSON text, found one character at a time. -/

namespace Decoration.Json

inductive Token where
  | openArray
  | closeArray
  | openObject
  | closeObject
  | colon
  | comma
  | value (scalar : Json)

inductive Scan where
  | between
  | word (read : List Char)
  | number (read : List Char)
  | string (read : List Char)
  | escape (read : List Char)
  | hex (read : List Char) (digits : Nat) (code : Nat)
  | low (read : List Char) (high : Nat)
  | lowEscape (read : List Char) (high : Nat)
  | lowHex (read : List Char) (high : Nat) (digits : Nat) (code : Nat)

def isBlank (c : Char) : Bool := c == ' ' || c == '\n' || c == '\t' || c == '\r'

def isNumeralChar (c : Char) : Bool :=
  c.isDigit || c == '-' || c == '+' || c == '.' || c == 'e' || c == 'E'

def word? (cs : List Char) : Option Json :=
  match String.ofList cs with
  | "null" => some null
  | "true" => some (bool true)
  | "false" => some (bool false)
  | _ => none

def shortEscape? : Char → Option Char
  | '"' => some '"'
  | '\\' => some '\\'
  | '/' => some '/'
  | 'b' => some '\x08'
  | 'f' => some '\x0c'
  | 'n' => some '\n'
  | 'r' => some '\r'
  | 't' => some '\t'
  | _ => none

def scanFirst (c : Char) : Option (Scan × List Token) :=
  if isBlank c then some (.between, [])
  else
    match c with
    | '[' => some (.between, [.openArray])
    | ']' => some (.between, [.closeArray])
    | '\x7b' => some (.between, [.openObject])
    | '\x7d' => some (.between, [.closeObject])
    | ':' => some (.between, [.colon])
    | ',' => some (.between, [.comma])
    | '"' => some (.string [], [])
    | _ =>
      if c.isDigit || c == '-' then some (.number [c], [])
      else if c.isLower then some (.word [c], [])
      else none

def scanAfter (scalar : Option Json) (c : Char) : Option (Scan × List Token) := do
  let value ← scalar
  let (scan, tokens) ← scanFirst c
  some (scan, .value value :: tokens)

/-- A code unit read from an escape; the first half of a pair waits for the second. -/
def scanUnit (read : List Char) (code : Nat) : Option Scan :=
  if 0xD800 ≤ code ∧ code < 0xDC00 then some (.low read code)
  else if 0xDC00 ≤ code ∧ code < 0xE000 then none
  else some (.string (Char.ofNat code :: read))

def scanStep : Scan → Char → Option (Scan × List Token)
  | .between, c => scanFirst c
  | .word read, c =>
    if c.isLower then some (.word (c :: read), []) else scanAfter (word? read.reverse) c
  | .number read, c =>
    if isNumeralChar c then some (.number (c :: read), []) else scanAfter (numeral? read.reverse) c
  | .string read, c =>
    if c = '"' then some (.between, [.value (.string (String.ofList read.reverse))])
    else if c = '\\' then some (.escape read, [])
    else if c.toNat < 32 then none
    else some (.string (c :: read), [])
  | .escape read, c =>
    if c = 'u' then some (.hex read 0 0, [])
    else (shortEscape? c).map fun e => (.string (e :: read), [])
  | .hex read digits code, c => do
    let value ← Text.hexValue? c
    if digits = 3 then (scanUnit read (code * 16 + value)).map (·, [])
    else some (.hex read (digits + 1) (code * 16 + value), [])
  | .low read high, c => if c = '\\' then some (.lowEscape read high, []) else none
  | .lowEscape read high, c => if c = 'u' then some (.lowHex read high 0 0, []) else none
  | .lowHex read high digits code, c => do
    let value ← Text.hexValue? c
    let code := code * 16 + value
    if digits = 3 then
      if 0xDC00 ≤ code ∧ code < 0xE000 then
        let full := 0x10000 + (high - 0xD800) * 0x400 + (code - 0xDC00)
        some (.string (Char.ofNat full :: read), [])
      else none
    else some (.lowHex read high (digits + 1) code, [])

def scanEnd : Scan → Option (List Token)
  | .between => some []
  | .word read => (word? read.reverse).map ([.value ·])
  | .number read => (numeral? read.reverse).map ([.value ·])
  | _ => none

end Decoration.Json
