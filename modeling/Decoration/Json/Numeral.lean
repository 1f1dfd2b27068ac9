import Decoration.Json
import Decoration.Number.Reader

/-! Numbers as JSON writes them. -/

namespace Decoration.Json

def integerLimit : Nat := 0x10000000000000000

def appendDigits : Nat → List Char → Nat × List Char
  | significand, [] => (significand, [])
  | significand, c :: rest =>
    if significand * 10 + (Text.hexValue? c).getD 0 < integerLimit then
      appendDigits (significand * 10 + (Text.hexValue? c).getD 0) rest
    else (significand, c :: rest)

/-- A double from the significand and a power of ten, each rounded before they are combined; powers
go down to `10 ^ -308`, and what is smaller takes several. A number too large is none. -/
def scaled? (negative : Bool) (significand : Nat) (power : Int) : Option Number :=
  if significand = 0 then some (.zero negative)
  else if 308 < power then none
  else
    let rounded := Number.nearestMagnitude significand 1
    let magnitude :=
      if 0 ≤ power then Number.timesMagnitude rounded (Number.powerOfTen power.toNat)
      else
        let steps := ((-power).toNat - 1) / 308
        Number.scaleDown ((-power).toNat - 308 * steps) steps rounded
    if magnitude < Number.magnitudes then some (Number.ofMagnitude negative magnitude) else none

def realOfParts (negative : Bool) (whole fraction : List Char) (power : Int) : Option Json :=
  let (significand, unused) := appendDigits 0 whole
  let (significand, dropped) := appendDigits significand fraction
  let place : Int := unused.length - ((fraction.length : Int) - dropped.length)
  (scaled? negative significand (place + power)).map real

def integerOfDigits (negative : Bool) (digits : List Char) : Option Json :=
  let n := Text.digitsValue 10 digits
  if negative then
    if 0 < n ∧ n ≤ integerLimit / 2 then some (integer (-n)) else realOfParts true digits [] 0
  else if n < integerLimit then some (integer n)
  else realOfParts false digits [] 0

def unsignedNumeral (negative : Bool) (cs : List Char) : Option Json :=
  let whole := cs.takeWhile Char.isDigit
  if whole.isEmpty || (whole.head? == some '0' && 1 < whole.length) then none
  else
    match cs.dropWhile Char.isDigit with
    | [] => integerOfDigits negative whole
    | '.' :: rest =>
      let fraction := rest.takeWhile Char.isDigit
      if fraction.isEmpty then none
      else
        (Number.power? (rest.dropWhile Char.isDigit)).bind (realOfParts negative whole fraction ·)
    | rest => (Number.power? rest).bind (realOfParts negative whole [] ·)

def numeral? : List Char → Option Json
  | '-' :: rest => unsignedNumeral true rest
  | cs => unsignedNumeral false cs

end Decoration.Json
