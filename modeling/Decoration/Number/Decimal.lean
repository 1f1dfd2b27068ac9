import Decoration.Number

/-! The fewest decimal digits that identify a double, and how they are written. -/

namespace Decoration

structure Decimal where
  digits : Nat
  exponent : Int
deriving DecidableEq, Repr

namespace Decimal

def normalize (d : Decimal) : Decimal :=
  if d.digits = 0 then ⟨0, 0⟩
  else
    let zeros := ((Nat.toDigits 10 d.digits).reverse.takeWhile (· = '0')).length
    ⟨d.digits / Nat.pow 10 zeros, d.exponent + zeros⟩

inductive Tie where
  | upward
  | even
deriving DecidableEq

end Decimal

namespace Number

def decimalScale (magnitude : Nat) : Nat :=
  let unit := exponent magnitude
  Nat.pow 2 unit.toNat * Nat.pow 5 (-unit).toNat

def exactDecimal (magnitude : Nat) : Decimal :=
  ⟨significand magnitude * decimalScale magnitude, min (exponent magnitude) 0⟩

/-- Whether the decimal `digits * 10 ^ (exactDecimal magnitude).exponent` rounds to the magnitude:
it lies between the halfway points to the two neighbours, which count when the significand is even.
Just above a power of two the lower neighbour is half as far away. -/
def readsBack (magnitude digits : Nat) : Bool :=
  let m := significand magnitude
  let below := if magnitude % binade = 0 ∧ binade < magnitude then 1 else 2
  let low := (4 * m - below) * decimalScale magnitude
  let high := (4 * m + 2) * decimalScale magnitude
  if m % 2 = 0 then low ≤ 4 * digits && 4 * digits ≤ high
  else low < 4 * digits && 4 * digits < high

def candidate? (tie : Decimal.Tie) (magnitude count : Nat) : Option Decimal :=
  let exact := exactDecimal magnitude
  let width := (Nat.toDigits 10 exact.digits).length
  if width ≤ count then some exact
  else
    let unit := Nat.pow 10 (width - count)
    let place := exact.exponent + (width - count : Nat)
    let lower := exact.digits / unit
    let rest := exact.digits % unit
    match readsBack magnitude (lower * unit), readsBack magnitude ((lower + 1) * unit) with
    | false, false => none
    | true, false => some ⟨lower, place⟩
    | false, true => some ⟨lower + 1, place⟩
    | true, true =>
      match compare (2 * rest) unit with
      | .lt => some ⟨lower, place⟩
      | .gt => some ⟨lower + 1, place⟩
      | .eq =>
        match tie with
        | .upward => some ⟨lower + 1, place⟩
        | .even => some ⟨if lower % 2 = 0 then lower else lower + 1, place⟩

def shortest (tie : Decimal.Tie) (magnitude : Nat) : Decimal :=
  (((List.range 17).findSome? fun k => candidate? tie magnitude (k + 1)).getD
    (exactDecimal magnitude)).normalize

end Number

namespace Decimal

def zeros (n : Nat) : String := String.ofList (List.replicate n '0')

def positional (d : Decimal) : String :=
  let digits := Nat.toDigits 10 d.digits
  let whole : Int := digits.length + d.exponent
  if 0 ≤ d.exponent then String.ofList digits ++ zeros d.exponent.toNat
  else if 0 < whole then
    String.ofList (digits.take whole.toNat) ++ "." ++ String.ofList (digits.drop whole.toNat)
  else "0." ++ zeros (-whole).toNat ++ String.ofList digits

def scientific (d : Decimal) : String :=
  let digits := Nat.toDigits 10 d.digits
  let order : Int := digits.length + d.exponent - 1
  let fraction := if digits.length = 1 then "" else "." ++ String.ofList (digits.drop 1)
  String.ofList (digits.take 1) ++ fraction ++ (if 0 ≤ order then "e+" else "e-") ++
    toString order.natAbs

end Decimal

namespace Number

def signed (negative : Bool) (text : String) : String := if negative then "-" ++ text else text

def text : Number → String
  | nan => "NaN"
  | infinite negative => signed negative "inf"
  | finite negative magnitude => signed negative (shortest .upward magnitude.val).positional

end Number
end Decoration
