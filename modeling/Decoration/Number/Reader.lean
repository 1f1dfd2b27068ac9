import Decoration.Number.Rounding

/-! Digits, and numbers from their text. -/

namespace Decoration.Text

def hexValue? (c : Char) : Option Nat :=
  if c.isDigit then some (c.toNat - '0'.toNat)
  else if 'a' ≤ c ∧ c ≤ 'f' then some (c.toNat - 'a'.toNat + 10)
  else if 'A' ≤ c ∧ c ≤ 'F' then some (c.toNat - 'A'.toNat + 10)
  else none

def digitsValue (base : Nat) (digits : List Char) : Nat :=
  digits.foldl (fun n c => n * base + (hexValue? c).getD 0) 0

def splitSign : List Char → Bool × List Char
  | '-' :: rest => (true, rest)
  | '+' :: rest => (false, rest)
  | cs => (false, cs)

def signedValue (negative : Bool) (digits : List Char) : Int :=
  if negative then -(digitsValue 10 digits : Int) else digitsValue 10 digits

end Decoration.Text

namespace Decoration.Number

def splitPoint (cs : List Char) : List Char × List Char × List Char :=
  let rest := cs.dropWhile Char.isDigit
  match rest with
  | '.' :: more =>
    (cs.takeWhile Char.isDigit, more.takeWhile Char.isDigit, more.dropWhile Char.isDigit)
  | _ => (cs.takeWhile Char.isDigit, [], rest)

def power? : List Char → Option Int
  | [] => some 0
  | mark :: rest =>
    let (negative, digits) := Text.splitSign rest
    if (mark = 'e' ∨ mark = 'E') ∧ !digits.isEmpty ∧ digits.all Char.isDigit then
      some (Text.signedValue negative digits)
    else none

def readDecimal? (negative : Bool) (cs : List Char) : Option Number :=
  let (whole, fraction, rest) := splitPoint cs
  if whole.isEmpty ∧ fraction.isEmpty then none
  else
    (power? rest).map fun power =>
      ofDecimal negative (Text.digitsValue 10 (whole ++ fraction)) (power - fraction.length)

def read? (s : String) : Option Number :=
  let (negative, cs) := Text.splitSign s.toList
  match String.ofList (cs.map Char.toLower) with
  | "nan" => some nan
  | "inf" | "infinity" => some (infinite negative)
  | _ => readDecimal? negative cs

end Decoration.Number
