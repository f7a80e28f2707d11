import Pron.Double

/-!
# Reading a real

A real is read from an optional sign and either the name of infinity or of a non-number, in any case of letters, or a
decimal: digits with at most one point and at least one digit, and an optional exponent. The number read is the one
nearest to the exact value.
-/

namespace Pron.Double

/-- Splits off an optional sign; `true` means minus. -/
def splitSign : List Char → Bool × List Char
  | '-' :: rest => (true, rest)
  | '+' :: rest => (false, rest)
  | rest => (false, rest)

/-- The exponent after a mantissa: nothing, or `e` with an optional sign and digits. -/
def readExponent : List Char → Option Int
  | [] => some 0
  | e :: rest =>
    let (negative, digits) := splitSign rest
    if e.toLower = 'e' ∧ digits ≠ [] ∧ digits.all Char.isDigit then
      let value := Nat.ofDigitChars 10 digits 0
      some (if negative then -(value : Int) else value)
    else none

/-- The number nearest to `± digits * 10 ^ exponent`. Exponents far outside the range of the finite numbers are not
computed with. -/
def ofDecimal (negative : Bool) (digits : Nat) (exponent : Int) : Float :=
  let magnitude := exponent + (Nat.toDigits 10 digits).length
  if digits = 0 ∨ magnitude < -400 then nearest negative 0 1
  else if 400 < magnitude then infinity negative
  else nearest negative (digits * pow10 exponent.toNat) (pow10 (-exponent).toNat)

/-- A decimal without its sign. -/
def readDecimal (negative : Bool) (text : List Char) : Option Float :=
  let whole := text.takeWhile Char.isDigit
  let (fraction, rest) :=
    match text.dropWhile Char.isDigit with
    | '.' :: after => (after.takeWhile Char.isDigit, after.dropWhile Char.isDigit)
    | after => ([], after)
  if whole ++ fraction = [] then none
  else (readExponent rest).map fun exponent =>
    ofDecimal negative (Nat.ofDigitChars 10 (whole ++ fraction) 0) (exponent - fraction.length)

/-- Reads the text of a real. -/
def read? (text : String) : Option Float :=
  let (negative, rest) := splitSign text.toList
  let lower := rest.map Char.toLower
  if lower = "inf".toList ∨ lower = "infinity".toList then some (infinity negative)
  else if lower = "nan".toList then some nan
  else readDecimal negative rest

end Pron.Double
