import Pron.Proofs.Double.Nearest
import Pron.Double.Shortest

/-!
# The shortest decimal rounds to its number

The search for the shortest decimal of a number ends on a grid that has a point in the number's interval
(`shortest_roundsTo`): the last grid that is tried is finer than half the gap to the next number.
-/

namespace Pron.Double

variable {m d n : Nat} {e k : Int} {tie : Tie}

/-! ## Grids -/

namespace Interval

variable {i : Interval}

theorem contains_of_gridPoint? (h : i.gridPoint? tie = some d) : i.contains d := by
  unfold gridPoint? at h
  dsimp only at h
  split at h
  · next hfloor hnext =>
    cases h
    unfold roundDiv
    dsimp only
    split
    · exact hnext
    · exact hfloor
  · next hfloor _ =>
    cases h
    exact hfloor
  · next hnext =>
    cases h
    exact hnext
  · cases h

/-- The point above the centre lies in the interval when the grid is finer than its upper half. -/
theorem exists_gridPoint? (hlow : i.low ≤ i.centre) (hden : 0 < i.den) (hfine : i.centre + i.den < i.high) (tie : Tie) :
    ∃ d, i.gridPoint? tie = some d := by
  have hnext : i.contains (i.centre / i.den + 1) := by
    have habove := Nat.lt_div_mul_add hden (a := i.centre)
    have hbelow := Nat.div_mul_le_self i.centre i.den
    rw [contains, Nat.succ_mul]
    split
    all_goals
      rw [decide_eq_true_eq]
      omega
  unfold gridPoint?
  dsimp only
  rw [hnext]
  split
  · exact ⟨_, rfl⟩
  · next h => cases h
  · exact ⟨_, rfl⟩
  · next h => cases h

end Interval

/-! ## Points in the interval -/

theorem cast_le_iff {a p : ℚ} {x y : Nat} (hx : (x : ℚ) = 4 * (a * (2 ^ e.toNat * 10 ^ (-k).toNat)))
    (hy : (y : ℚ) = 4 * (p * (2 ^ (-e).toNat * 10 ^ k.toNat))) :
    (x ≤ y ↔ a * 2 ^ e ≤ p * 10 ^ k) ∧ (y ≤ x ↔ p * 10 ^ k ≤ a * 2 ^ e) := by
  rw [← Nat.cast_le (α := ℚ), ← Nat.cast_le (α := ℚ), hx, hy, zpow_eq_div two_ne_zero e,
    zpow_eq_div (by norm_num : (10 : ℚ) ≠ 0) k, mul_div, mul_div, div_le_div_iff₀ (by positivity) (by positivity),
    div_le_div_iff₀ (by positivity) (by positivity)]
  constructor <;> constructor <;> intro h <;> linarith

/-- The interval in units of the grid is the interval of the number. -/
theorem around_eq (hm : 0 < m) (e k : Int) :
    ((Interval.around m e k).low : ℚ) = 4 * ((m - lowerHalf m e) * (2 ^ e.toNat * 10 ^ (-k).toNat)) ∧
      ((Interval.around m e k).high : ℚ) = 4 * ((m + 1 / 2) * (2 ^ e.toNat * 10 ^ (-k).toNat)) ∧
      ((Interval.around m e k).den : ℚ) = 4 * (2 ^ (-e).toNat * 10 ^ k.toNat) := by
  unfold Interval.around
  dsimp only
  generalize hbelow : (if m = pow2 52 ∧ minExponent < e then 1 else 2 : Nat) = below
  have hhalf : (below : ℚ) = 4 * lowerHalf m e ∧ below ≤ 4 * m := by
    rw [← hbelow, lowerHalf]
    by_cases hpower : m = 2 ^ 52 ∧ minExponent < e
    · rw [if_pos hpower, if_pos (c := m = pow2 52 ∧ minExponent < e) hpower]
      exact ⟨by norm_num, by omega⟩
    · rw [if_neg hpower, if_neg (c := m = pow2 52 ∧ minExponent < e) hpower]
      exact ⟨by norm_num, by omega⟩
  obtain ⟨hhalf, hle⟩ := hhalf
  simp only [pow2_eq, pow10_eq]
  refine ⟨?_, ?_, ?_⟩
  · push_cast [Nat.cast_sub hle]
    rw [hhalf]
    ring
  · push_cast
    ring
  · push_cast
    ring

/-- A point of the grid that the interval contains rounds to the number. -/
theorem roundsTo_of_contains (hm : 0 < m) (h : (Interval.around m e k).contains d) : RoundsTo m e (d * 10 ^ k) := by
  obtain ⟨hlow, hhigh, hden⟩ := around_eq hm e k
  have hpoint : ((d * (Interval.around m e k).den : Nat) : ℚ) = 4 * (d * (2 ^ (-e).toNat * 10 ^ k.toNat)) := by
    rw [Nat.cast_mul, hden]
    ring
  obtain ⟨hlowLe, hleLow⟩ := cast_le_iff hlow hpoint
  obtain ⟨hhighLe, hleHigh⟩ := cast_le_iff hhigh hpoint
  have hclosed : (Interval.around m e k).closed = (m % 2 == 0) := rfl
  rw [Interval.contains, hclosed] at h
  split at h
  · next heven =>
    obtain ⟨hl, hh⟩ := of_decide_eq_true h
    refine ⟨hlowLe.1 hl, hleHigh.1 hh, fun hodd => ?_⟩
    rw [beq_iff_eq] at heven
    omega
  · obtain ⟨hl, hh⟩ := of_decide_eq_true h
    have hl : (m - lowerHalf m e) * 2 ^ e < d * 10 ^ k := not_le.1 fun h => Nat.not_le.2 hl (hleLow.2 h)
    have hh : d * 10 ^ k < (m + 1 / 2) * (2 : ℚ) ^ e := not_le.1 fun h => Nat.not_le.2 hh (hhighLe.2 h)
    exact ⟨hl.le, hh.le, fun _ => ⟨hl, hh⟩⟩

/-! ## The last grid -/

/-- Twenty decimal places below the first grid, the grid is finer than half the gap to the next number: with
`10 ^ 3 < 2 ^ 10` for the large numbers and `2 ^ 43 < 10 ^ 13` for the small ones. -/
theorem ten_zpow_lt (hk : 100000 * (k + 18) ≤ 30103 * (e + 53)) (he : minExponent ≤ e) (he' : e ≤ 971) :
    (10 : ℚ) ^ k < 2 ^ (e - 1) := by
  have hmin : minExponent = -1074 := rfl
  rcases le_or_gt 0 k with hsign | hsign
  · have hpow : (10 : ℚ) ^ (3 * k) ≤ 2 ^ (10 * k) := by
      rw [zpow_mul, zpow_mul]
      exact zpow_le_zpow_left₀ hsign (by norm_num) (by norm_num)
    have hlt : (10 : ℚ) ^ (3 * k) < 2 ^ (3 * (e - 1)) :=
      lt_of_le_of_lt hpow (zpow_lt_zpow_right₀ one_lt_two (by omega))
    rw [mul_comm 3 k, mul_comm 3 (e - 1), zpow_mul, zpow_mul] at hlt
    exact lt_of_pow_lt_pow_left₀ 3 (by positivity) (by exact_mod_cast hlt)
  · have hpow : (10 : ℚ) ^ (13 * k) ≤ 2 ^ (43 * k) := by
      obtain ⟨j, rfl⟩ : ∃ j : Nat, k = -j := ⟨(-k).toNat, by omega⟩
      rw [zpow_mul, zpow_mul, zpow_neg, zpow_neg]
      exact inv_anti₀ (by positivity) (zpow_le_zpow_left₀ (by positivity) (by norm_num) (by norm_num))
    have hlt : (10 : ℚ) ^ (13 * k) < 2 ^ (13 * (e - 1)) :=
      lt_of_le_of_lt hpow (zpow_lt_zpow_right₀ one_lt_two (by omega))
    rw [mul_comm 13 k, mul_comm 13 (e - 1), zpow_mul, zpow_mul] at hlt
    exact lt_of_pow_lt_pow_left₀ 13 (by positivity) (by exact_mod_cast hlt)

theorem shortestFrom_contains {j : Nat} (hj : j < n)
    (hpoint : ∃ d, (Interval.around m e (k - j)).gridPoint? tie = some d) :
    (Interval.around m e (shortestFrom tie m e n k).exponent).contains (shortestFrom tie m e n k).digits := by
  induction n generalizing k j with
  | zero => exact absurd hj (Nat.not_lt_zero j)
  | succ n ih =>
    unfold shortestFrom
    split
    · next h => exact Interval.contains_of_gridPoint? h
    · next h =>
      cases j with
      | zero =>
        obtain ⟨d, hd⟩ := hpoint
        rw [Int.ofNat_zero, Int.sub_zero, h] at hd
        cases hd
      | succ j =>
        refine ih (Nat.lt_of_succ_lt_succ hj) ?_
        rwa [Int.sub_sub, Int.add_comm 1, ← Int.natCast_succ]

/-- A grid that is finer than half the gap to the next number has a point in the interval. -/
theorem exists_gridPoint?_of_lt (hm : 0 < m) (h : (10 : ℚ) ^ k < 2 ^ (e - 1)) (tie : Tie) :
    ∃ d, (Interval.around m e k).gridPoint? tie = some d := by
  have hcentre : ((Interval.around m e k).centre : ℚ) = 4 * (m * (2 ^ e.toNat * 10 ^ (-k).toNat)) := by
    simp only [Interval.around, pow2_eq, pow10_eq]
    push_cast
    ring
  obtain ⟨hlow, hhigh, hden⟩ := around_eq hm e k
  have hhalf : 0 ≤ lowerHalf m e := by
    unfold lowerHalf
    split <;> norm_num
  refine Interval.exists_gridPoint? ?_ ?_ ?_ tie
  · rw [← Nat.cast_le (α := ℚ), hlow, hcentre]
    gcongr
    linarith
  · rw [← Nat.cast_pos (α := ℚ), hden]
    positivity
  · rw [← Nat.cast_lt (α := ℚ), Nat.cast_add, hcentre, hden, hhigh]
    have htwice : (2 : ℚ) ^ e = 2 * 2 ^ (e - 1) := by
      rw [← zpow_one_add₀ two_ne_zero]
      congr 1
      omega
    have hfine : (10 : ℚ) ^ k * 2 < 2 ^ e := by linarith
    rw [zpow_eq_div two_ne_zero e, zpow_eq_div (by norm_num : (10 : ℚ) ≠ 0) k, div_mul_eq_mul_div,
      div_lt_div_iff₀ (by positivity) (by positivity)] at hfine
    linarith

/-- The shortest decimal of a number rounds to it. -/
theorem shortest_roundsTo (h : IsMagnitude m e) (hm : 0 < m) (tie : Tie) :
    RoundsTo m e ((shortest tie m e).digits * 10 ^ (shortest tie m e).exponent) := by
  have hlog : m.log2 ≤ 52 := Nat.le_of_lt_succ ((Nat.log2_lt hm.ne').2 h.width)
  refine roundsTo_of_contains hm (shortestFrom_contains (j := 20) (by omega) (exists_gridPoint?_of_lt hm ?_ tie))
  have := h.low
  have := h.high
  refine ten_zpow_lt ?_ h.low h.high
  omega

end Pron.Double
