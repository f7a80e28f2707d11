import Pron.Double.Shortest

/-!
# The text of a real

Reals are written with the digits of their shortest decimal. The language itself never uses an exponent; listings in
JSON use one for very large and very small numbers.
-/

namespace Pron.Double

namespace Decimal

/-- The digits, as text. -/
def digitText (d : Decimal) : List Char := Nat.toDigits 10 d.digits

/-- The power of ten of the first digit. -/
def magnitude (d : Decimal) : Int := d.exponent + d.digitText.length - 1

/-- Positional notation; a number without a fraction ends in `.0`. -/
def positional (d : Decimal) : String :=
  let digits := d.digitText
  if 0 ≤ d.exponent then String.ofList (digits ++ List.replicate d.exponent.toNat '0' ++ ['.', '0'])
  else
    let places := (-d.exponent).toNat
    let padded := List.replicate (places + 1 - digits.length) '0' ++ digits
    let whole := padded.length - places
    String.ofList (padded.take whole ++ '.' :: padded.drop whole)

/-- Scientific notation: one digit before the point, and an exponent with its sign. -/
def scientific (d : Decimal) : String :=
  let digits := d.digitText
  let fraction := if digits.length ≤ 1 then [] else '.' :: digits.drop 1
  let sign := if d.magnitude < 0 then '-' else '+'
  String.ofList (digits.take 1 ++ fraction ++ 'e' :: sign :: Nat.toDigits 10 d.magnitude.natAbs)

end Decimal

/-- How a format writes reals: the decimal that it takes when two shortest ones are equally near, and the text of a
positive decimal. -/
structure Format where
  tie : Tie
  write : Decimal → String

/-- The text of a finite number in a format. -/
def textIn (format : Format) (parts : Parts) : String :=
  let sign := if parts.negative then "-" else ""
  if parts.significand = 0 then sign ++ "0.0"
  else sign ++ format.write (shortest format.tie parts.significand parts.exponent)

/-- The language writes every real in positional notation, whatever its size, and a tie goes up. -/
def plainFormat : Format := ⟨.up, Decimal.positional⟩

/-- JSON has positional notation from `1e-5` up to `1e16` and scientific notation outside, and a tie goes to the even
digit. -/
def jsonFormat : Format :=
  ⟨.even, fun d => if -5 ≤ d.magnitude ∧ d.magnitude < 16 then d.positional else d.scientific⟩

/-- The text of a real in the language. -/
def text (x : Float) : String :=
  match view x with
  | .nan => "NaN"
  | .infinite negative => if negative then "-inf" else "inf"
  | .finite parts => textIn plainFormat parts

/-- The text of a real in JSON, and `null` for what JSON has no number for. -/
def jsonText (x : Float) : String :=
  match view x with
  | .finite parts => textIn jsonFormat parts
  | _ => "null"

example : text 0.1 = "0.1" := by decide +kernel

example : text (-3.0) = "-3.0" := by decide +kernel

example : text 1e23 = "100000000000000000000000.0" := by decide +kernel

-- the number lies half-way between its two shortest decimals
example : text 1.00000762939453125 = "1.0000076293945313" ∧ jsonText 1.00000762939453125 = "1.0000076293945312" := by
  decide +kernel

example : [1e-5, 1e-6, 1e15, 1e16, 1.5e300].map jsonText =
    ["0.00001", "1e-6", "1000000000000000.0", "1e+16", "1.5e+300"] := by decide +kernel

end Pron.Double
