import Pron.Proofs.Double.Encoding

/-!
# Rounding to the nearest number

The rationals that are nearest to a finite number, or half-way to a neighbour of an even one, form an interval around it
(`RoundsTo`). A fraction in this interval is given the encoding of the number (`nearestBits_eq`).
-/

namespace Pron.Double

/-- How far below a number its interval starts, in units of its last place. Below a power of two the numbers lie twice
as dense. -/
def lowerHalf (m : Nat) (e : Int) : ℚ := if m = 2 ^ 52 ∧ minExponent < e then 1 / 4 else 1 / 2

/-- The rationals that round to `m * 2 ^ e`. The ends of the interval belong to it when `m` is even. -/
structure RoundsTo (m : Nat) (e : Int) (v : ℚ) : Prop where
  low : (m - lowerHalf m e) * 2 ^ e ≤ v
  high : v ≤ (m + 1 / 2) * 2 ^ e
  odd : m % 2 = 1 → (m - lowerHalf m e) * 2 ^ e < v ∧ v < (m + 1 / 2) * 2 ^ e

variable {num den m : Nat} {e : Int} {v : ℚ}

/-! ## Fractions -/

theorem pow2_eq (n : Nat) : pow2 n = 2 ^ n := rfl

theorem pow10_eq (n : Nat) : pow10 n = 10 ^ n := rfl

/-- A power with an integer exponent as a fraction of natural numbers. -/
theorem zpow_eq_div {b : ℚ} (hb : b ≠ 0) (e : Int) : b ^ e = b ^ e.toNat / b ^ (-e).toNat := by
  rw [eq_div_iff (pow_ne_zero _ hb), ← zpow_natCast, ← zpow_natCast, ← zpow_add₀ hb]
  congr 1
  omega

/-- Scaling a fraction by a power of two. -/
theorem scaled_eq (num den : Nat) (e : Int) :
    ((num * pow2 (-e).toNat : Nat) : ℚ) / (den * pow2 e.toNat : Nat) = num / den / 2 ^ e := by
  rw [zpow_eq_div two_ne_zero e, pow2_eq, pow2_eq]
  push_cast
  rw [div_div_div_eq]

/-! ## Rounding a quotient -/

theorem roundDiv_even_eq (hden : 0 < den) (hlow : 2 * m * den ≤ 2 * num + den) (hhigh : 2 * num ≤ 2 * m * den + den)
    (hodd : m % 2 = 1 → 2 * m * den < 2 * num + den ∧ 2 * num < 2 * m * den + den) : roundDiv .even num den = m := by
  have hnum := Nat.div_add_mod num den
  have hrest := Nat.mod_lt num hden
  generalize hq : num / den = q at hnum
  generalize hr : num % den = r at hnum hrest
  have hle : q ≤ m := by
    by_contra h
    nlinarith
  have hge : m ≤ q + 1 := by
    by_contra h
    nlinarith
  rw [roundDiv]
  simp only [hq, hr, reduceCtorEq, false_or]
  rcases Nat.le_and_le_add_one_iff.1 ⟨hle, hge⟩ with rfl | rfl
  · rw [if_neg]
    rintro (h | ⟨h, hqodd⟩)
    · nlinarith
    · have := (hodd hqodd).2
      nlinarith
  · rw [if_pos]
    by_cases hqodd : (q + 1) % 2 = 1
    · have := (hodd hqodd).1
      left
      nlinarith
    · by_cases h : den < 2 * r
      · exact .inl h
      · right
        constructor
        · nlinarith
        · omega

/-- Rounding to an integer takes the nearest one, of two equally near ones the even one. -/
theorem roundDiv_eq (hden : 0 < den) (hv : (num : ℚ) / den = v) (hlow : m - 1 / 2 ≤ v) (hhigh : v ≤ m + 1 / 2)
    (hodd : m % 2 = 1 → m - 1 / 2 < v ∧ v < m + 1 / 2) : roundDiv .even num den = m := by
  have hden' : (0 : ℚ) < den := by exact_mod_cast hden
  subst hv
  rw [le_div_iff₀ hden'] at hlow
  rw [div_le_iff₀ hden'] at hhigh
  rw [lt_div_iff₀ hden', div_lt_iff₀ hden'] at hodd
  refine roundDiv_even_eq hden ?_ ?_ fun h => ⟨?_, ?_⟩
  · have : (2 * m * den : ℚ) ≤ 2 * num + den := by linarith
    exact_mod_cast this
  · have : (2 * num : ℚ) ≤ 2 * m * den + den := by linarith
    exact_mod_cast this
  · have : (2 * m * den : ℚ) < 2 * num + den := by linarith [(hodd h).1]
    exact_mod_cast this
  · have : (2 * num : ℚ) < 2 * m * den + den := by linarith [(hodd h).2]
    exact_mod_cast this

/-! ## The exponent -/

/-- The number of bits bounds a quotient up to a factor of four. -/
theorem log2_bounds (hnum : num ≠ 0) (hden : den ≠ 0) :
    (2 : ℚ) ^ ((num.log2 : Int) - den.log2 - 1) ≤ num / den ∧
      (num : ℚ) / den < 2 ^ ((num.log2 : Int) - den.log2 + 1) := by
  have hden' : (0 : ℚ) < den := by exact_mod_cast Nat.pos_of_ne_zero hden
  have hnumLow : (2 : ℚ) ^ (num.log2 : Int) ≤ num := by exact_mod_cast Nat.log2_self_le hnum
  have hnumHigh : (num : ℚ) < 2 ^ ((num.log2 : Int) + 1) := by exact_mod_cast Nat.lt_log2_self
  have hdenLow : (2 : ℚ) ^ (den.log2 : Int) ≤ den := by exact_mod_cast Nat.log2_self_le hden
  have hdenHigh : (den : ℚ) < 2 ^ ((den.log2 : Int) + 1) := by exact_mod_cast Nat.lt_log2_self
  constructor
  · rw [le_div_iff₀ hden']
    calc (2 : ℚ) ^ ((num.log2 : Int) - den.log2 - 1) * den
        ≤ 2 ^ ((num.log2 : Int) - den.log2 - 1) * 2 ^ ((den.log2 : Int) + 1) := by gcongr
      _ = 2 ^ (num.log2 : Int) := by
        rw [← zpow_add₀ two_ne_zero]
        congr 1
        omega
      _ ≤ num := hnumLow
  · rw [div_lt_iff₀ hden']
    calc (num : ℚ) < 2 ^ ((num.log2 : Int) + 1) := hnumHigh
      _ = 2 ^ ((num.log2 : Int) - den.log2 + 1) * 2 ^ (den.log2 : Int) := by
        rw [← zpow_add₀ two_ne_zero]
        congr 1
        omega
      _ ≤ 2 ^ ((num.log2 : Int) - den.log2 + 1) * den := by gcongr

/-- The exponent is the one with which the quotient keeps fifty-three bits, or the smallest one. -/
theorem exponentOf_eq (hnum : num ≠ 0) (hden : den ≠ 0) : ∃ E : Int, exponentOf num den = max minExponent E ∧
    (2 : ℚ) ^ (52 + E) ≤ num / den ∧ (num : ℚ) / den < 2 ^ (53 + E) := by
  obtain ⟨hlow, hhigh⟩ := log2_bounds hnum hden
  unfold exponentOf
  dsimp only
  generalize hguess : (num.log2 : Int) - den.log2 - 53 = guess
  have hwide : pow2 53 * pow2 guess.toNat * den ≤ num * pow2 (-guess).toNat ↔ (2 : ℚ) ^ (53 + guess) ≤ num / den := by
    have hpos : (0 : ℚ) < (den * pow2 guess.toNat : Nat) := by
      have := Nat.pos_of_ne_zero hden
      rw [pow2_eq]
      positivity
    rw [zpow_add₀ two_ne_zero, ← le_div_iff₀ (by positivity), ← scaled_eq, le_div_iff₀ hpos, pow2_eq 53]
    rw [Nat.mul_assoc, Nat.mul_comm (pow2 guess.toNat)]
    norm_cast
  refine ⟨_, rfl, ?_⟩
  split
  · next h =>
    rw [decide_eq_true_eq, hwide] at h
    constructor
    · rwa [show 52 + (guess + 1) = 53 + guess by ring]
    · rwa [show 53 + (guess + 1) = (num.log2 : Int) - den.log2 + 1 by omega]
  · next h =>
    rw [decide_eq_true_eq, hwide, not_le] at h
    constructor
    · rwa [show 52 + guess = (num.log2 : Int) - den.log2 - 1 by omega]
    · exact h

/-! ## The nearest number -/

theorem nearestBits_eq_of_exponent {E : Int} (hnum : num ≠ 0) (hden : den ≠ 0) (hE : exponentOf num den = E)
    (hlow : m - 1 / 2 ≤ (num : ℚ) / den / 2 ^ E) (hhigh : (num : ℚ) / den / 2 ^ E ≤ m + 1 / 2)
    (hodd : m % 2 = 1 → m - 1 / 2 < (num : ℚ) / den / 2 ^ E ∧ (num : ℚ) / den / 2 ^ E < m + 1 / 2) :
    nearestBits num den = min infinityBits ((E - minExponent).toNat * pow2 52 + m) := by
  have hpos : 0 < den * pow2 E.toNat := by
    rw [pow2_eq]
    have := Nat.pos_of_ne_zero hden
    positivity
  rw [nearestBits, if_neg hnum]
  dsimp only
  rw [hE, roundDiv_eq hpos (scaled_eq num den E) hlow hhigh hodd]

theorem lowerHalf_le (m : Nat) (e : Int) : lowerHalf m e ≤ 1 / 2 := by
  unfold lowerHalf
  split <;> norm_num

/-- A fraction that keeps fifty-three bits with the exponent of the number, or has the smallest exponent. -/
theorem nearestBits_eq_of_le (h : IsMagnitude m e) (hnum : num ≠ 0) (hden : den ≠ 0) (hE : exponentOf num den = e)
    (hv : RoundsTo m e (num / den)) : nearestBits num den = encode m e := by
  have hunit : (0 : ℚ) < 2 ^ e := by positivity
  have hhalf := lowerHalf_le m e
  obtain ⟨hlow, hhigh, hodd⟩ := hv
  rw [← le_div_iff₀ hunit] at hlow
  rw [← div_le_iff₀ hunit] at hhigh
  rw [← lt_div_iff₀ hunit, ← div_lt_iff₀ hunit] at hodd
  rw [nearestBits_eq_of_exponent hnum hden hE (by linarith) hhigh fun h => ⟨by linarith [(hodd h).1], (hodd h).2⟩]
  exact Nat.min_eq_right (Nat.le_of_lt h.encode_lt)

/-- A fraction below the power of two that a number is. It keeps one bit more, which the rounding carries. -/
theorem nearestBits_eq_of_lt (he : minExponent < e) (hhigh : e ≤ 971) (hnum : num ≠ 0) (hden : den ≠ 0)
    (hE : exponentOf num den = e - 1) (hlow : (2 ^ 52 - 1 / 4) * (2 : ℚ) ^ e ≤ num / den)
    (hlt : (num : ℚ) / den < 2 ^ (52 + e)) : nearestBits num den = encode (2 ^ 52) e := by
  have hunit : (0 : ℚ) < 2 ^ (e - 1) := by positivity
  have htwice : (2 : ℚ) ^ e = 2 * 2 ^ (e - 1) := by
    rw [← zpow_one_add₀ two_ne_zero]
    congr 1
    omega
  have hlow : ((2 ^ 53 : Nat) : ℚ) - 1 / 2 ≤ num / den / 2 ^ (e - 1) := by
    rw [le_div_iff₀ hunit]
    push_cast
    rw [htwice] at hlow
    linarith
  have hhigh' : (num : ℚ) / den / 2 ^ (e - 1) ≤ (2 ^ 53 : Nat) + 1 / 2 := by
    rw [div_le_iff₀ hunit]
    push_cast
    rw [zpow_add₀ two_ne_zero, htwice] at hlt
    norm_num at hlt ⊢
    linarith
  have hcarry : (e - 1 - minExponent).toNat * pow2 52 + 2 ^ 53 = encode (2 ^ 52) e := by
    have hpow : pow2 52 = 2 ^ 52 := rfl
    rw [encode, hpow]
    omega
  have hmagnitude : IsMagnitude (2 ^ 52) e := ⟨he.le, hhigh, by norm_num, fun _ => le_refl _⟩
  rw [nearestBits_eq_of_exponent hnum hden hE hlow hhigh' (by norm_num), hcarry]
  exact Nat.min_eq_right (Nat.le_of_lt hmagnitude.encode_lt)

/-- A fraction in the interval of a number is given its encoding. -/
theorem nearestBits_eq (h : IsMagnitude m e) (hnum : num ≠ 0) (hden : den ≠ 0) (hv : RoundsTo m e (num / den)) :
    nearestBits num den = encode m e := by
  obtain ⟨E, hE, hElow, hEhigh⟩ := exponentOf_eq hnum hden
  have hunit : (0 : ℚ) < 2 ^ e := by positivity
  have hwidth : (m : ℚ) ≤ 2 ^ 53 - 1 := by
    have := h.width
    have : m + 1 ≤ 2 ^ 53 := this
    have : (m + 1 : ℚ) ≤ 2 ^ 53 := by exact_mod_cast this
    linarith
  have hle : E ≤ e := by
    have : (2 : ℚ) ^ (52 + E) < 2 ^ (53 + e) := by
      refine lt_of_le_of_lt (hElow.trans hv.high) ?_
      rw [zpow_add₀ two_ne_zero]
      gcongr
      norm_num
      linarith
    have := (zpow_lt_zpow_iff_right₀ one_lt_two).1 this
    omega
  by_cases hsmall : minExponent < e ∧ (num : ℚ) / den < 2 ^ (52 + e)
  · obtain ⟨he, hlt⟩ := hsmall
    obtain rfl : m = 2 ^ 52 := by
      refine Nat.le_antisymm (Nat.le_of_lt_succ ?_) (h.normal he)
      have hhalf := lowerHalf_le m e
      have hm : (m - lowerHalf m e) * 2 ^ e < 2 ^ 52 * (2 : ℚ) ^ e := by
        refine lt_of_le_of_lt hv.low ?_
        rwa [← zpow_natCast, ← zpow_add₀ two_ne_zero]
      have hm := lt_of_mul_lt_mul_right hm hunit.le
      have : (m : ℚ) < 2 ^ 52 + 1 := by linarith
      exact_mod_cast this
    have hlow : (2 ^ 52 - 1 / 4) * (2 : ℚ) ^ e ≤ num / den := by
      have := hv.low
      rw [lowerHalf, if_pos ⟨rfl, he⟩] at this
      exact_mod_cast this
    have hEe : E = e - 1 := by
      have hElt : (2 : ℚ) ^ (52 + E) < 2 ^ (52 + e) := lt_of_le_of_lt hElow hlt
      have hElt := (zpow_lt_zpow_iff_right₀ one_lt_two).1 hElt
      have hEgt : (2 : ℚ) ^ (51 + e) < 2 ^ (53 + E) := by
        refine lt_of_le_of_lt ?_ (lt_of_le_of_lt hlow hEhigh)
        rw [zpow_add₀ two_ne_zero]
        gcongr
        norm_num
      have hEgt := (zpow_lt_zpow_iff_right₀ one_lt_two).1 hEgt
      omega
    refine nearestBits_eq_of_lt he h.high hnum hden ?_ hlow hlt
    rw [hE, hEe, max_eq_right (by omega)]
  · refine nearestBits_eq_of_le h hnum hden ?_ hv
    rw [hE]
    by_cases he : minExponent < e
    · have hge : (2 : ℚ) ^ (52 + e) < 2 ^ (53 + E) := by
        refine lt_of_le_of_lt ?_ hEhigh
        exact not_lt.1 fun hlt => hsmall ⟨he, hlt⟩
      have hge := (zpow_lt_zpow_iff_right₀ one_lt_two).1 hge
      rw [max_eq_right (by omega)]
      omega
    · have := h.low
      rw [max_eq_left (by omega)]
      omega

end Pron.Double
