import Decoration.Number.Reader
import Decoration.Setting
import Decoration.Toml.Quoted

/-! The values of TOML that hold no others. Numbers and dates are checked and not kept, since no
setting can be one. -/

namespace Decoration.Toml

def grouped (isDigit : Char → Bool) : List Char → Bool
  | [] => false
  | [c] => isDigit c
  | c :: '_' :: rest => isDigit c && grouped isDigit rest
  | c :: rest => isDigit c && grouped isDigit rest

def ungrouped (cs : List Char) : List Char := cs.filter (· != '_')

def valueOf (base : Nat) (cs : List Char) : Nat := Text.digitsValue base (ungrouped cs)

def integerLimit : Nat := 0x8000000000000000

def isWhole (cs : List Char) : Bool :=
  grouped Char.isDigit cs && (cs.head? != some '0' || cs.length == 1)

def isDecimalInteger (cs : List Char) : Bool :=
  let (negative, digits) := Text.splitSign cs
  isWhole digits && valueOf 10 digits < integerLimit + if negative then 1 else 0

def isBased (base : Nat) (cs : List Char) : Bool :=
  grouped (fun c => (Text.hexValue? c).any (· < base)) cs && valueOf base cs < integerLimit

def isInteger : List Char → Bool
  | '0' :: 'x' :: rest => isBased 16 rest
  | '0' :: 'o' :: rest => isBased 8 rest
  | '0' :: 'b' :: rest => isBased 2 rest
  | cs => isDecimalInteger cs

def isExponentMark (c : Char) : Bool := c == 'e' || c == 'E'

def isDecimalFloat (cs : List Char) : Bool :=
  let (_, digits) := Text.splitSign cs
  let whole := digits.takeWhile fun c => c != '.' && !isExponentMark c
  let rest := digits.drop whole.length
  let fraction := rest.takeWhile (!isExponentMark ·)
  let exponent := rest.drop fraction.length
  let (_, power) := Text.splitSign (exponent.drop 1)
  isWhole whole && !rest.isEmpty &&
    (fraction.isEmpty || grouped Char.isDigit (fraction.drop 1)) &&
    (exponent.isEmpty || grouped Char.isDigit power) &&
    Number.read? (String.ofList (ungrouped cs)) != some (.infinite false)

def isFloat (cs : List Char) : Bool :=
  let (_, name) := Text.splitSign cs
  name == ['i', 'n', 'f'] || name == ['n', 'a', 'n'] || isDecimalFloat cs

def isPair (low high : Nat) (cs : List Char) : Bool :=
  cs.length == 2 && cs.all Char.isDigit && low ≤ valueOf 10 cs && valueOf 10 cs ≤ high

def isLeapYear (year : Nat) : Bool := year % 4 == 0 && (year % 100 != 0 || year % 400 == 0)

def daysInMonth (year month : Nat) : Nat :=
  if month = 2 then if isLeapYear year then 29 else 28
  else if month = 4 ∨ month = 6 ∨ month = 9 ∨ month = 11 then 30
  else 31

def isDate (cs : List Char) : Bool :=
  let year := cs.take 4
  let month := (cs.drop 5).take 2
  let day := cs.drop 8
  year.length == 4 && year.all Char.isDigit && cs[4]? == some '-' && cs[7]? == some '-' &&
    isPair 1 12 month && isPair 1 (daysInMonth (valueOf 10 year) (valueOf 10 month)) day

def isSecondFraction : List Char → Bool
  | [] => true
  | '.' :: digits => !digits.isEmpty && digits.all Char.isDigit
  | _ => false

def isTime (cs : List Char) : Bool :=
  isPair 0 23 (cs.take 2) && cs[2]? == some ':' && isPair 0 59 ((cs.drop 3).take 2) &&
    cs[5]? == some ':' && isPair 0 60 ((cs.drop 6).take 2) && isSecondFraction (cs.drop 8)

def isOffset : List Char → Bool
  | [] => true
  | [c] => c == 'Z' || c == 'z'
  | sign :: cs =>
    (sign == '+' || sign == '-') && isPair 0 23 (cs.take 2) && cs[2]? == some ':' &&
      isPair 0 59 (cs.drop 3)

def isTimeChar (c : Char) : Bool := c.isDigit || c == ':' || c == '.'

def isZonedTime (cs : List Char) : Bool :=
  isTime (cs.takeWhile isTimeChar) && isOffset (cs.dropWhile isTimeChar)

def isDateTime (cs : List Char) : Bool :=
  isDate (cs.take 10) && (cs[10]? == some 'T' || cs[10]? == some 't') && isZonedTime (cs.drop 11)

def isWordChar (c : Char) : Bool :=
  c.isAlphanum || c == '_' || c == '+' || c == '-' || c == '.' || c == ':'

def startsTime (cs : List Char) : Bool := isPair 0 23 (cs.take 2) && cs[2]? == some ':'

def wordValue (word rest : List Char) : Option (Setting × List Char) :=
  if word = ['t', 'r', 'u', 'e'] then some (.flag true, rest)
  else if word = ['f', 'a', 'l', 's', 'e'] then some (.flag false, rest)
  else if isInteger word || isFloat word || isTime word || isDateTime word then
    some (.other, rest)
  else if isDate word then
    match rest with
    | ' ' :: more =>
      if startsTime more then
        if isZonedTime (more.takeWhile isWordChar) then some (.other, more.dropWhile isWordChar)
        else none
      else some (.other, rest)
    | _ => some (.other, rest)
  else none

def scalar? : List Char → Option (Setting × List Char)
  | '"' :: rest => (quoted '"' rest).map fun (text, rest) => (.text text, rest)
  | '\'' :: rest => (quoted '\'' rest).map fun (text, rest) => (.text text, rest)
  | cs => wordValue (cs.takeWhile isWordChar) (cs.dropWhile isWordChar)

end Decoration.Toml
