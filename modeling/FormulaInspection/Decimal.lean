/-!
Natural numbers written in decimal digits.
-/

namespace FormulaInspection.Decimal

def bound32 : Nat := 4294967296

def bound64 : Nat := 18446744073709551616

def value? (digits : List Char) : Option Nat :=
  if digits.isEmpty || !digits.all Char.isDigit then none else some (Nat.ofDigitChars 10 digits 0)

/-- Reads digits, with or without a `+` before them, as a number below a bound. Leading zeros are
allowed. -/
def ofText? (bound : Nat) (text : String) : Option Nat :=
  let digits := match text.toList with
    | '+' :: rest => rest
    | chars => chars
  (value? digits).filter (· < bound)

/-- Reads a number below a bound that is spelled the one way a writer spells it: no sign and no
superfluous zero. -/
def ofPlain? (bound : Nat) (text : String) : Option Nat :=
  match text.toList with
  | ['0'] => some 0
  | '0' :: _ => none
  | digits => (value? digits).filter (· < bound)

end FormulaInspection.Decimal
