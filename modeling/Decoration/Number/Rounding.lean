import Decoration.Number

/-! The double nearest to an exact quotient or decimal; of two equally near ones, the one with an
even significand. -/

namespace Decoration.Number

def roundedQuotient (num den : Nat) : Nat :=
  let quotient := num / den
  match compare (2 * (num % den)) den with
  | .lt => quotient
  | .gt => quotient + 1
  | .eq => if quotient % 2 = 0 then quotient else quotient + 1

def quotientLog2 (num den : Nat) : Int :=
  let guess : Int := (num.log2 : Int) - den.log2
  if den * Nat.pow 2 guess.toNat ≤ num * Nat.pow 2 (-guess).toNat then guess else guess - 1

def nearestMagnitude (num den : Nat) : Nat :=
  if num = 0 then 0
  else
    let unit := max (-1074) (quotientLog2 num den - 52)
    (unit + 1074).toNat * binade +
      roundedQuotient (num * Nat.pow 2 (-unit).toNat) (den * Nat.pow 2 unit.toNat)

def ofQuotient (negative : Bool) (num den : Nat) : Number :=
  ofMagnitude negative (nearestMagnitude num den)

def ofInt (n : Int) : Number := ofQuotient (n < 0) n.natAbs 1

/-- The nearest double to `digits * 10 ^ exponent`. Decimals far outside the range of doubles are
decided by their order of magnitude. -/
def ofDecimal (negative : Bool) (digits : Nat) (exponent : Int) : Number :=
  if digits = 0 then zero negative
  else
    let order : Int := (Nat.toDigits 10 digits).length + exponent
    if 310 < order then infinite negative
    else if order < -330 then zero negative
    else ofQuotient negative (digits * Nat.pow 10 exponent.toNat) (Nat.pow 10 (-exponent).toNat)

def timesMagnitude (a b : Nat) : Nat :=
  let unit := Number.exponent a + Number.exponent b
  nearestMagnitude (significand a * significand b * Nat.pow 2 unit.toNat)
    (Nat.pow 2 (-unit).toNat)

def overMagnitude (a b : Nat) : Nat :=
  let unit := Number.exponent a - Number.exponent b
  nearestMagnitude (significand a * Nat.pow 2 unit.toNat)
    (significand b * Nat.pow 2 (-unit).toNat)

def powerOfTen (k : Nat) : Nat := nearestMagnitude (Nat.pow 10 k) 1

def scaleDown (power : Nat) : Nat → Nat → Nat
  | 0, magnitude => overMagnitude magnitude (powerOfTen power)
  | n + 1, magnitude =>
    if magnitude = 0 then 0 else scaleDown power n (overMagnitude magnitude (powerOfTen 308))

end Decoration.Number
