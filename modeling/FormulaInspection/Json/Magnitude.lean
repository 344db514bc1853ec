import FormulaInspection.Decimal

/-!
How large a number in a JSON text is, and whether it stays in the range of numbers with 53
significant bits below two to the power of 1024.
-/

namespace FormulaInspection.Json

structure Magnitude where
  significand : Nat
  exponent : Int
  deriving DecidableEq

namespace Magnitude

def takeIn (significand : Nat) : List Char → Nat × List Char
  | [] => (significand, [])
  | digit :: rest =>
    let next := significand * 10 + (digit.toNat - '0'.toNat)
    if next < Decimal.bound64 then takeIn next rest else (significand, digit :: rest)

/-- The magnitude of `whole.fraction` times a power of ten. Digits before the point that are left
over count as powers of ten, and those after it are dropped. -/
def ofParts (whole fraction : List Char) (exponent : Int) : Magnitude :=
  let (leading, left) := takeIn 0 whole
  let (significand, dropped) := takeIn leading fraction
  { significand, exponent := exponent + left.length + dropped.length - fraction.length }

def exponentOf : List Char → Int
  | '-' :: digits => -(Nat.ofDigitChars 10 digits 0)
  | '+' :: digits => Nat.ofDigitChars 10 digits 0
  | digits => Nat.ofDigitChars 10 digits 0

def ofSpelling (spelling : List Char) : Magnitude :=
  let body := spelling.dropWhile (· == '-')
  let whole := body.takeWhile Char.isDigit
  match body.dropWhile Char.isDigit with
  | '.' :: rest =>
    ofParts whole (rest.takeWhile Char.isDigit) (exponentOf (rest.dropWhile Char.isDigit).tail)
  | rest => ofParts whole [] (exponentOf rest.tail)

def ofInt (value : Int) : Magnitude :=
  ofParts (Nat.toDigits 10 value.natAbs) [] 0

/-- The nearest number with 53 significant bits, where a half goes to the even neighbour. -/
def roundBits (value : Nat) : Nat :=
  let unit := Nat.pow 2 (value.log2 - 52)
  let quotient := value / unit
  let rest := 2 * (value % unit)
  if unit < rest ∨ (rest = unit ∧ quotient % 2 = 1) then (quotient + 1) * unit
  else quotient * unit

def overflowBound : Nat :=
  Nat.pow 2 1024 - Nat.pow 2 970

/-- Whether the number stays in range. Both factors are rounded before they are multiplied, and a
power of ten beyond 308 is out of range by itself. -/
def isFinite (magnitude : Magnitude) : Bool :=
  magnitude.significand == 0 || magnitude.exponent ≤ 0 ||
    (magnitude.exponent ≤ 308 &&
      roundBits magnitude.significand * roundBits (Nat.pow 10 magnitude.exponent.toNat) <
        overflowBound)

end Magnitude

end FormulaInspection.Json
