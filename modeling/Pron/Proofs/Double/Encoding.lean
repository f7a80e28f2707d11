import Mathlib
import Pron.Double.Read

/-!
# Encodings

The machine keeps the encoding of every number that is not a NaN: what `nearest` and `infinity` encode is what `view`
takes apart again (`toBits_ofBits`), and what is read without a sign has none (`not_negative_of_ofDecimal`).
-/

namespace Pron.Double

open Float.Model

/-- An encoding up to that of infinity is kept. -/
theorem toBits_ofBits {b : Nat} (h : b ≤ infinityBits) : (Float.ofBits (.ofNat b)).toBits = .ofNat b := by
  have hbits : (Float.ofBits (.ofNat b)).toBits.toBitVec =
      UnpackedFloat.pack .binary64 (UnpackedFloat.unpack .binary64 (UInt64.ofNat b).toBitVec) := rfl
  rw [UnpackedFloat.pack_unpack, if_neg] at hbits
  · exact UInt64.toBitVec_inj.1 hbits
  · intro hnan
    simp only [UnpackedFloat.isNaNBits, UnpackedFloat.unpackExponent_def, UnpackedFloat.unpackMantissa_def,
      decide_eq_true_eq] at hnan
    obtain ⟨hexponent, hmantissa⟩ := hnan
    -- a NaN has all bits of the exponent and one of the fraction, so it lies beyond infinity
    have hexponent := congrArg BitVec.toNat hexponent
    have hmantissa := fun h => hmantissa (BitVec.eq_of_toNat_eq h)
    simp [BitVec.extractLsb'_toNat, Nat.shiftRight_eq_div_pow] at hexponent hmantissa
    have hinfinity : infinityBits = 2047 * 4503599627370496 := rfl
    omega

/-- Without the bit of the sign there is no sign. -/
theorem not_negative_of_view {b : Nat} (h : b ≤ infinityBits) {parts : Parts}
    (hview : view (Float.ofBits (.ofNat b)) = .finite parts) : parts.negative = false := by
  have hinfinity : infinityBits = 2047 * 4503599627370496 := rfl
  have hsign : decide ((UInt64.ofNat b).toNat / pow2 63 = 1) = false := by
    have hpow : pow2 63 = 9223372036854775808 := rfl
    rw [decide_eq_false_iff_not, UInt64.toNat_ofNat', hpow]
    omega
  rw [view, toBits_ofBits h, viewBits] at hview
  simp only [hsign] at hview
  split at hview
  · split at hview
    · cases hview
    · cases hview
  split at hview
  · cases hview
    rfl
  · cases hview
    rfl

theorem nearestBits_le (num den : Nat) : nearestBits num den ≤ infinityBits := by
  unfold nearestBits
  split
  · exact Nat.zero_le _
  · exact Nat.min_le_left _ _

/-- What is read without a sign has none. -/
theorem not_negative_of_ofDecimal {digits : Nat} {exponent : Int} {parts : Parts}
    (hview : view (ofDecimal false digits exponent) = .finite parts) : parts.negative = false := by
  unfold ofDecimal at hview
  dsimp only at hview
  split at hview
  · unfold nearest at hview
    rw [if_neg Bool.false_ne_true, Nat.zero_add] at hview
    exact not_negative_of_view (nearestBits_le _ _) hview
  split at hview
  · unfold infinity at hview
    rw [if_neg Bool.false_ne_true, Nat.zero_add] at hview
    exact not_negative_of_view (Nat.le_refl _) hview
  · unfold nearest at hview
    rw [if_neg Bool.false_ne_true, Nat.zero_add] at hview
    exact not_negative_of_view (nearestBits_le _ _) hview

/-! ## Finite numbers -/

theorem exists_view_of_parts? {x : Float} (h : (parts? x).isSome) : ∃ parts, view x = .finite parts := by
  unfold parts? at h
  split at h
  · next parts hview => exact ⟨parts, hview⟩
  · cases h

variable {m : Nat} {e : Int}

/-- The significand and exponent of a finite number. Only at the smallest exponent is the first bit missing. -/
structure IsMagnitude (m : Nat) (e : Int) : Prop where
  low : minExponent ≤ e
  high : e ≤ 971
  width : m < 2 ^ 53
  normal : minExponent < e → 2 ^ 52 ≤ m

/-- The encoding of a finite number. -/
def encode (m : Nat) (e : Int) : Nat := (e - minExponent).toNat * pow2 52 + m

theorem IsMagnitude.encode_lt (h : IsMagnitude m e) : encode m e < infinityBits := by
  obtain ⟨hlow, hhigh, hwidth, _⟩ := h
  have hpow : pow2 52 = 4503599627370496 := rfl
  have hinfinity : infinityBits = 2047 * 4503599627370496 := rfl
  have hmin : minExponent = -1074 := rfl
  rw [encode, hpow, hinfinity]
  omega

/-- The bit of the sign. -/
def signBit (negative : Bool) : Nat := if negative then pow2 63 else 0

/-- The fields of an encoding put together again. -/
theorem fields_eq {b : Nat} (hb : b < 2 ^ 64) :
    b = signBit (decide (b / pow2 63 = 1)) + (b / pow2 52 % pow2 11 * pow2 52 + b % pow2 52) := by
  have h11 : pow2 11 = 2048 := rfl
  have h52 : pow2 52 = 4503599627370496 := rfl
  have h63 : pow2 63 = 9223372036854775808 := rfl
  rw [signBit]
  simp only [h11, h52, h63, decide_eq_true_eq]
  split <;> omega

theorem eq_of_view {x : Float} {negative : Bool} (h : view x = .finite ⟨negative, m, e⟩) :
    IsMagnitude m e ∧ x = Float.ofBits (.ofNat (signBit negative + encode m e)) := by
  have hfields := fields_eq x.toBits.toNat_lt
  have hfraction := Nat.mod_lt x.toBits.toNat (show 0 < pow2 52 by decide)
  have hbiased := Nat.mod_lt (x.toBits.toNat / pow2 52) (show 0 < pow2 11 by decide)
  have hx : x = Float.ofBits (.ofNat x.toBits.toNat) := by rw [UInt64.ofNat_toNat, Float.ofBits_toBits]
  unfold view viewBits at h
  dsimp only at h
  generalize x.toBits.toNat % pow2 52 = fraction at h hfields hfraction
  generalize x.toBits.toNat / pow2 52 % pow2 11 = biased at h hfields hbiased
  generalize decide (x.toBits.toNat / pow2 63 = 1) = sign at h hfields
  have h11 : pow2 11 = 2048 := rfl
  have h52 : pow2 52 = 4503599627370496 := rfl
  have hmin : minExponent = -1074 := rfl
  split at h
  · split at h <;> cases h
  split at h
  · next hzero =>
    cases h
    refine ⟨⟨by omega, by omega, by omega, by omega⟩, hx.trans (congrArg (fun b => Float.ofBits (.ofNat b)) ?_)⟩
    rw [hfields, hzero, encode, Int.sub_self, Int.toNat_zero]
  · cases h
    refine ⟨⟨by omega, by omega, by omega, by omega⟩, hx.trans (congrArg (fun b => Float.ofBits (.ofNat b)) ?_)⟩
    rw [hfields, encode, add_sub_cancel_left, Int.toNat_natCast, h52]
    omega

end Pron.Double
