/-!
# Binary floating point numbers

The reals of the language are 64-bit binary floating point numbers. This module takes such a number apart into sign,
significand and binary exponent, rounds an exact fraction to the nearest number (ties to the even significand), and
defines on the exact values what the machine operations do not give: the conversion from integers and the remainder of a
division truncated toward zero.
-/

namespace Pron.Double

/-- The powers of two. -/
def pow2 (n : Nat) : Nat := Nat.pow 2 n

/-- The powers of ten. -/
def pow10 (n : Nat) : Nat := Nat.pow 10 n

/-- A finite number: `± significand * 2 ^ exponent`. -/
structure Parts where
  negative : Bool
  significand : Nat
  exponent : Int
  deriving DecidableEq, Repr

/-- The smallest exponent, that of the subnormal numbers. -/
def minExponent : Int := -1074

/-- A number by what it is: not a number, infinite, or finite with its parts. -/
inductive View
  | nan
  | infinite (negative : Bool)
  | finite (parts : Parts)
  deriving DecidableEq, Repr

/-- Reads the fields of the encoding: one bit of sign, eleven of exponent, fifty-two of fraction. -/
def viewBits (bits : UInt64) : View :=
  let negative := decide (bits.toNat / pow2 63 = 1)
  let biased := bits.toNat / pow2 52 % pow2 11
  let fraction := bits.toNat % pow2 52
  if biased = 2047 then (if fraction = 0 then .infinite negative else .nan)
  else if biased = 0 then .finite ⟨negative, fraction, minExponent⟩
  else .finite ⟨negative, pow2 52 + fraction, minExponent + (biased - 1 : Nat)⟩

/-- What a number is. -/
def view (x : Float) : View := viewBits x.toBits

/-- The parts of a finite number. -/
def parts? (x : Float) : Option Parts :=
  match view x with
  | .finite parts => some parts
  | _ => none

/-- The encoding of infinity, which is also the first one beyond the finite numbers. -/
def infinityBits : Nat := 2047 * pow2 52

/-- Which of two equally near numbers a rounding takes. -/
inductive Tie where
  /-- the larger one -/
  | up
  /-- the even one -/
  | even
  deriving DecidableEq, Repr

/-- `num / den` rounded to the nearest natural number, a half as `tie` says. -/
def roundDiv (tie : Tie) (num den : Nat) : Nat :=
  let low := num / den
  let rest := 2 * (num % den)
  if den < rest ∨ (rest = den ∧ (tie = .up ∨ low % 2 = 1)) then low + 1 else low

example : roundDiv .up 5 2 = 3 ∧ roundDiv .even 5 2 = 2 ∧ roundDiv .even 7 2 = 4 := by decide

/-- The exponent with which `num / den` keeps fifty-three bits, or the smallest exponent if that is larger. -/
def exponentOf (num den : Nat) : Int :=
  let guess : Int := (num.log2 : Int) - den.log2 - 53
  let wide := decide (pow2 53 * pow2 guess.toNat * den ≤ num * pow2 (-guess).toNat)
  max minExponent (if wide then guess + 1 else guess)

/-- The encoding of the number nearest to the fraction `num / den`, without its sign. -/
def nearestBits (num den : Nat) : Nat :=
  if num = 0 then 0
  else
    let exponent := exponentOf num den
    let significand := roundDiv .even (num * pow2 (-exponent).toNat) (den * pow2 exponent.toNat)
    -- a significand that rounds up to the next power of two carries into the field of the exponent
    min infinityBits ((exponent - minExponent).toNat * pow2 52 + significand)

/-- The number nearest to `± num / den`; the denominator is positive. -/
def nearest (negative : Bool) (num den : Nat) : Float :=
  Float.ofBits (.ofNat ((if negative then pow2 63 else 0) + nearestBits num den))

/-- The number nearest to an integer. -/
def ofInt (n : Int) : Float := nearest (decide (n < 0)) n.natAbs 1

/-- Not a number. -/
def nan : Float := Float.ofBits 0x7ff8000000000000

/-- Infinity with a sign. -/
def infinity (negative : Bool) : Float :=
  Float.ofBits (.ofNat ((if negative then pow2 63 else 0) + infinityBits))

/-- What is left of `x` after the division by `y` truncated toward zero. The result is exact and has the sign of `x`. -/
def remainder (x y : Float) : Float :=
  match view x, view y with
  | .finite a, .finite b =>
    if b.significand = 0 then nan
    else
      let low := min a.exponent b.exponent
      let left := a.significand * pow2 (a.exponent - low).toNat
      let right := b.significand * pow2 (b.exponent - low).toNat
      nearest a.negative (left % right * pow2 low.toNat) (pow2 (-low).toNat)
  | .finite _, .infinite _ => x
  | _, _ => nan

end Pron.Double
