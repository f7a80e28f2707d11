/-!
# Integers

The integers of the language are 64-bit words in two's complement. They are written in decimal.
-/

namespace Pron.Integer

/-- The decimal text of an integer. -/
def text (n : Int64) : String :=
  String.ofList ((if n.toInt < 0 then ['-'] else []) ++ Nat.toDigits 10 n.toInt.natAbs)

/-- The word that holds an integer, if it is in range. -/
def ofInt? (n : Int) : Option Int64 :=
  if Int64.minValue.toInt ≤ n ∧ n ≤ Int64.maxValue.toInt then some (.ofInt n) else none

/-- The value of one or more digits. -/
def readDigits (digits : List Char) : Option Nat :=
  if digits ≠ [] ∧ digits.all Char.isDigit then some (Nat.ofDigitChars 10 digits 0) else none

/-- Reads an optional sign and one or more digits; a number out of range is refused. -/
def read? (text : String) : Option Int64 :=
  match text.toList with
  | '-' :: digits => (readDigits digits).bind fun n => ofInt? (-n)
  | '+' :: digits => (readDigits digits).bind fun n => ofInt? n
  | digits => (readDigits digits).bind fun n => ofInt? n

end Pron.Integer
