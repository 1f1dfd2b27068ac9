/-! Numbers are IEEE 754 doubles as data: one NaN, two infinities and two zeros, so that
equality of numbers is sameness of values. -/

namespace Decoration

/-- The magnitude counts the finite doubles upwards from zero, so it is the bit pattern without
the sign. -/
inductive Number where
  | nan
  | infinite (negative : Bool)
  | finite (negative : Bool) (magnitude : Fin 0x7FF0000000000000)
deriving DecidableEq, Repr, Inhabited

namespace Number

def magnitudes : Nat := 0x7FF0000000000000

def binade : Nat := 0x10000000000000

def significand (magnitude : Nat) : Nat :=
  if magnitude < binade then magnitude else binade + magnitude % binade

def exponent (magnitude : Nat) : Int :=
  if magnitude < binade then -1074 else (magnitude / binade : Nat) - 1075

def zero (negative : Bool) : Number := finite negative 0

def isZero : Number → Bool
  | finite _ magnitude => magnitude == 0
  | _ => false

def isNaN : Number → Bool
  | nan => true
  | _ => false

/-- Equality as numbers compare: NaN differs from itself and the zeros are equal. -/
def numericEq (a b : Number) : Bool :=
  !a.isNaN && (a = b || (a.isZero && b.isZero))

def ofMagnitude (negative : Bool) (magnitude : Nat) : Number :=
  if h : magnitude < 0x7FF0000000000000 then finite negative ⟨magnitude, h⟩ else infinite negative

def signBit : Nat := 0x8000000000000000

def ofBits (bits : UInt64) : Number :=
  let negative := bits.toNat / signBit == 1
  let magnitude := bits.toNat % signBit
  if magnitudes < magnitude then nan else ofMagnitude negative magnitude

def toBits : Number → UInt64
  | nan => 0x7FF8000000000000
  | infinite negative => UInt64.ofNat (magnitudes + if negative then signBit else 0)
  | finite negative magnitude => UInt64.ofNat (magnitude.val + if negative then signBit else 0)

def toFloat (x : Number) : Float := Float.ofBits x.toBits

def ofFloat (x : Float) : Number := ofBits x.toBits

end Number
end Decoration
