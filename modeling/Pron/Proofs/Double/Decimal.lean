import Pron.Proofs.Double.Shortest
import Pron.Proofs.Token.Lexeme
import Pron.Double.Read
import Pron.Double.Text

/-!
# Reals are read back

A finite real is written as digits, a point and digits, and read back as itself (`read?_text`): its shortest decimal
rounds to it, and reading a decimal rounds to the nearest number. A real that comes from a source text is written
without a sign (`text_decimal`).
-/

namespace Pron

namespace Double

/-! ## Writing -/

theorem isDigits_zero : IsDigits ['0'] := by
  refine ⟨nofun, fun c hc => ?_⟩
  rw [List.mem_singleton.1 hc]
  rfl

/-- Zeros before or after digits are digits. -/
theorem isDigit_of_mem_replicate {n : Nat} {c : Char} (h : c ∈ List.replicate n '0') : c.isDigit := by
  rw [(List.mem_replicate.1 h).2]
  rfl

/-- Positional notation has digits on both sides of its point, and these have the value of the decimal. -/
theorem positional_eq (d : Decimal) : ∃ whole fraction, d.positional = String.ofList (whole ++ '.' :: fraction) ∧
    IsDigits whole ∧ IsDigits fraction ∧
      (Nat.ofDigitChars 10 (whole ++ fraction) 0 : ℚ) * 10 ^ (-(fraction.length : Int)) =
        d.digits * 10 ^ d.exponent := by
  obtain ⟨hne, hdigits⟩ := isDigits_toDigits d.digits
  have hvalue : Nat.ofDigitChars 10 d.digitText 0 = d.digits := Nat.ofDigitChars_toDigits (by decide) (by decide)
  unfold Decimal.positional
  dsimp only
  split
  · next hexponent =>
    refine ⟨d.digitText ++ List.replicate d.exponent.toNat '0', ['0'], ?_, ⟨?_, fun c hc => ?_⟩, isDigits_zero, ?_⟩
    · simp
    · exact fun h => hne (List.append_eq_nil_iff.1 h).1
    · rcases List.mem_append.1 hc with hc | hc
      · exact hdigits c hc
      · exact isDigit_of_mem_replicate hc
    · have hdot : Nat.ofDigitChars 10 (d.digitText ++ List.replicate d.exponent.toNat '0' ++ ['0']) 0 =
          10 * (10 ^ d.exponent.toNat * d.digits) := by
        rw [Nat.ofDigitChars_append, Nat.ofDigitChars_append, hvalue, Nat.ofDigitChars_replicate_zero]
        rfl
      have hexponent' : (10 : ℚ) ^ d.exponent = 10 ^ d.exponent.toNat := by
        rw [← zpow_natCast, Int.toNat_of_nonneg hexponent]
      rw [hdot, hexponent', List.length_singleton]
      push_cast
      rw [zpow_neg_one]
      ring
  · next hexponent =>
    generalize hpad : List.replicate ((-d.exponent).toNat + 1 - d.digitText.length) '0' ++ d.digitText = padded
    have hpadded : ∀ c ∈ padded, c.isDigit := by
      intro c hc
      rw [← hpad] at hc
      rcases List.mem_append.1 hc with hc | hc
      · exact isDigit_of_mem_replicate hc
      · exact hdigits c hc
    have hlength : (-d.exponent).toNat + 1 ≤ padded.length := by
      rw [← hpad, List.length_append, List.length_replicate]
      omega
    refine ⟨_, _, rfl, ⟨?_, fun c hc => ?_⟩, ⟨?_, fun c hc => ?_⟩, ?_⟩
    · rw [← List.length_pos_iff, List.length_take]
      omega
    · exact hpadded c (List.mem_of_mem_take hc)
    · rw [← List.length_pos_iff, List.length_drop]
      omega
    · exact hpadded c (List.mem_of_mem_drop hc)
    · have hzeros : Nat.ofDigitChars 10 padded 0 = d.digits := by
        rw [← hpad, Nat.ofDigitChars_append, Nat.ofDigitChars_replicate_zero, Nat.mul_zero, hvalue]
      rw [List.take_append_drop, hzeros, List.length_drop]
      congr 2
      omega

/-! ## Reading -/

/-- A digit has no case. -/
theorem toLower_digit {c : Char} (hc : c.isDigit) : c.toLower = c := by
  simp only [Char.isDigit, ge_iff_le, Bool.and_eq_true, decide_eq_true_eq, UInt32.le_iff_toNat_le] at hc
  unfold Char.toLower
  rw [dif_neg]
  rintro ⟨h, _⟩
  rw [ge_iff_le, UInt32.le_iff_toNat_le] at h
  exact absurd (Nat.le_trans h hc.2) (by decide)

/-- What is written before the digits of a number. -/
def sign (negative : Bool) : List Char := if negative then ['-'] else []

theorem splitSign_digits {c : Char} (hc : c.isDigit) (negative : Bool) (cs : List Char) :
    splitSign (sign negative ++ c :: cs) = (negative, c :: cs) := by
  cases negative with
  | true => rfl
  | false =>
    show splitSign (c :: cs) = (false, c :: cs)
    unfold splitSign
    split
    · next h =>
      cases h
      cases hc
    · next h =>
      cases h
      cases hc
    · rfl

/-- Digits on both sides of a point are read as a decimal. -/
theorem read?_point {whole fraction : List Char} (hwhole : IsDigits whole) (hfraction : IsDigits fraction)
    (negative : Bool) : read? (String.ofList (sign negative ++ (whole ++ '.' :: fraction))) =
      some (ofDecimal negative (Nat.ofDigitChars 10 (whole ++ fraction) 0) (-(fraction.length : Int))) := by
  obtain ⟨hne, hwhole⟩ := hwhole
  obtain ⟨_, hfraction⟩ := hfraction
  obtain ⟨c, rest, rfl⟩ := List.exists_cons_of_ne_nil hne
  have hc := hwhole c (List.mem_cons_self ..)
  -- a digit is no letter, so the text is no name
  have hname {name : List Char} {d : Char} (hd : d.isDigit = false) (hhead : name.head? = some d) :
      (c :: (rest ++ '.' :: fraction)).map Char.toLower ≠ name := by
    intro h
    rw [← h, List.map_cons, toLower_digit hc] at hhead
    cases hhead
    rw [hc] at hd
    cases hd
  have hpoint : Scan.Stops Char.isDigit ('.' :: fraction) := .cons rfl
  have hend : Scan.Stops Char.isDigit [] := nofun
  have hfractionEnd := Scan.takeWhile_append hfraction hend
  have hrestEnd := Scan.dropWhile_append hfraction hend
  rw [List.append_nil] at hfractionEnd hrestEnd
  unfold read?
  rw [String.toList_ofList, List.cons_append, splitSign_digits hc]
  dsimp only
  rw [if_neg, if_neg (hname (d := 'n') rfl rfl)]
  · unfold readDecimal
    dsimp only
    rw [← List.cons_append, Scan.takeWhile_append hwhole hpoint, Scan.dropWhile_append hwhole hpoint]
    simp only [hfractionEnd, hrestEnd, readExponent, List.cons_append, reduceCtorEq, if_false, Option.map_some,
      zero_sub]
  · rintro (h | h)
    · exact hname (d := 'i') rfl rfl h
    · exact hname (d := 'i') rfl rfl h

/-! ## Rounding what is read -/

variable {m : Nat} {e : Int}

/-- The digits of a positive number, as powers of ten. -/
theorem length_toDigits_bounds {n : Nat} (hn : n ≠ 0) :
    (10 : ℚ) ^ ((Nat.toDigits 10 n).length - 1 : Int) ≤ n ∧ (n : ℚ) < 10 ^ ((Nat.toDigits 10 n).length : Int) := by
  have hlength : 0 < (Nat.toDigits 10 n).length := Nat.length_toDigits_pos
  obtain ⟨l, hl⟩ : ∃ l, (Nat.toDigits 10 n).length = l + 1 := ⟨_, (Nat.succ_pred_eq_of_pos hlength).symm⟩
  have hlow : 10 ^ l ≤ n := by
    by_contra h
    rcases Nat.eq_zero_or_pos l with rfl | hpos
    · omega
    · have := (Nat.length_toDigits_le_iff (b := 10) (by decide) hpos).2 (not_le.1 h)
      omega
  have hhigh : n < 10 ^ (l + 1) := (Nat.length_toDigits_le_iff (by decide) (Nat.succ_pos l)).1 hl.le
  rw [hl]
  constructor
  · rw [Nat.cast_succ, add_sub_cancel_right, zpow_natCast]
    exact_mod_cast hlow
  · rw [zpow_natCast]
    exact_mod_cast hhigh

/-- A decimal that rounds to a finite number is not far outside their range. -/
theorem RoundsTo.bounds {v : ℚ} (hv : RoundsTo m e v) (h : IsMagnitude m e) (hm : 0 < m) :
    (10 : ℚ) ^ (-400 : Int) ≤ v ∧ v < 10 ^ (400 : Int) := by
  have hhalf := lowerHalf_le m e
  have hm' : (1 : ℚ) ≤ m := by exact_mod_cast hm
  have hwidth : (m : ℚ) + 1 ≤ 2 ^ 53 := by exact_mod_cast h.width
  constructor
  · calc (10 : ℚ) ^ (-400 : Int) ≤ 2 ^ (minExponent - 1) := (ten_zpow_lt (by decide) (le_refl _) (by decide)).le
      _ = 1 / 2 * 2 ^ minExponent := by
        rw [zpow_sub_one₀ two_ne_zero]
        ring
      _ ≤ 1 / 2 * 2 ^ e := by
        gcongr
        · exact one_le_two
        · exact h.low
      _ ≤ (m - lowerHalf m e) * 2 ^ e := by
        gcongr
        linarith
      _ ≤ v := hv.low
  · calc v ≤ (m + 1 / 2) * 2 ^ e := hv.high
      _ ≤ 2 ^ 53 * 2 ^ (971 : Int) := by
        gcongr
        · linarith
        · exact one_le_two
        · exact h.high
      _ ≤ (2 ^ (3 : Int)) ^ (400 : Int) := by
        rw [← zpow_natCast, ← zpow_add₀ two_ne_zero, ← zpow_mul]
        exact zpow_le_zpow_right₀ one_le_two (by decide)
      _ < 10 ^ (400 : Int) := zpow_lt_zpow_left₀ (by decide) (by norm_num) (by norm_num)

/-- A decimal that rounds to a number is read as it. -/
theorem ofDecimal_eq {digits : Nat} {exponent : Int} (h : IsMagnitude m e) (hm : 0 < m)
    (hv : RoundsTo m e (digits * 10 ^ exponent)) (negative : Bool) :
    ofDecimal negative digits exponent = Float.ofBits (.ofNat (signBit negative + encode m e)) := by
  obtain ⟨hlow, hhigh⟩ := hv.bounds h hm
  have hdigits : digits ≠ 0 := by
    rintro rfl
    rw [Nat.cast_zero, zero_mul] at hlow
    exact absurd hlow (not_le.2 (by positivity))
  -- the exponents that are not computed with are out of range
  obtain ⟨hlengthLow, hlengthHigh⟩ := length_toDigits_bounds hdigits
  have hunit : (0 : ℚ) < 10 ^ exponent := by positivity
  have hsmall : ¬exponent + (Nat.toDigits 10 digits).length < -400 := by
    have hlt : (10 : ℚ) ^ (-400 : Int) < 10 ^ ((Nat.toDigits 10 digits).length + exponent : Int) := by
      rw [zpow_add₀ (by norm_num)]
      exact lt_of_le_of_lt hlow (mul_lt_mul_of_pos_right hlengthHigh hunit)
    have := (zpow_lt_zpow_iff_right₀ (by norm_num)).1 hlt
    omega
  have hlarge : ¬400 < exponent + (Nat.toDigits 10 digits).length := by
    have hlt : (10 : ℚ) ^ ((Nat.toDigits 10 digits).length - 1 + exponent : Int) < 10 ^ (400 : Int) := by
      rw [zpow_add₀ (by norm_num)]
      exact lt_of_le_of_lt (mul_le_mul_of_nonneg_right hlengthLow hunit.le) hhigh
    have := (zpow_lt_zpow_iff_right₀ (by norm_num)).1 hlt
    omega
  unfold ofDecimal
  dsimp only
  rw [if_neg (not_or.2 ⟨hdigits, hsmall⟩), if_neg hlarge, nearest, ← signBit]
  have hquotient : ((digits * pow10 exponent.toNat : Nat) : ℚ) / (pow10 (-exponent).toNat : Nat) =
      digits * 10 ^ exponent := by
    rw [zpow_eq_div (by norm_num) exponent, pow10_eq, pow10_eq]
    push_cast
    ring
  have hpow (n : Nat) : pow10 n ≠ 0 := pow_ne_zero n (by decide)
  rw [nearestBits_eq h (mul_ne_zero hdigits (hpow _)) (hpow _) (hquotient ▸ hv)]

/-! ## Texts -/

theorem sign_append (negative : Bool) (text : List Char) :
    (if negative then "-" else "") ++ String.ofList text = String.ofList (sign negative ++ text) := by
  cases negative with
  | true => exact String.ofList_append.symm
  | false => exact String.empty_append

/-- Every finite real is read back from its text. -/
theorem read?_text {x : Float} {parts : Parts} (h : view x = .finite parts) : read? (text x) = some x := by
  obtain ⟨negative, m, e⟩ := parts
  obtain ⟨hmagnitude, hx⟩ := eq_of_view h
  rw [text, h]
  unfold textIn
  dsimp only
  split
  · next hzero =>
    subst hzero
    obtain rfl : e = minExponent := by
      by_contra hne
      have := hmagnitude.normal (lt_of_le_of_ne hmagnitude.low (Ne.symm hne))
      omega
    have htext : "0.0" = String.ofList (['0'] ++ '.' :: ['0']) := rfl
    rw [htext, sign_append, read?_point isDigits_zero isDigits_zero, hx]
    show some (ofDecimal negative 0 _) = _
    rw [ofDecimal, if_pos (.inl rfl)]
    rfl
  · next hm =>
    obtain ⟨whole, fraction, htext, hwhole, hfraction, hvalue⟩ := positional_eq (shortest .up m e)
    have hrounds := shortest_roundsTo hmagnitude (Nat.pos_of_ne_zero hm) .up
    rw [← hvalue] at hrounds
    show read? (_ ++ (shortest .up m e).positional) = _
    rw [htext, sign_append, read?_point hwhole hfraction, ofDecimal_eq hmagnitude (Nat.pos_of_ne_zero hm) hrounds, ← hx]

/-- A finite real that is read from a source text is written in the same form. -/
theorem text_decimal {s : String} (hs : IsDecimal s.toList) {x : Float} (hread : read? s = some x) {parts : Parts}
    (hview : view x = .finite parts) : IsDecimal (text x).toList := by
  obtain ⟨whole, fraction, hs, hwhole, hfraction⟩ := hs
  have hsign : s = String.ofList (sign false ++ (whole ++ '.' :: fraction)) := by
    rw [sign, if_neg Bool.false_ne_true, List.nil_append, ← hs, String.ofList_toList]
  rw [hsign, read?_point hwhole hfraction, Option.some_inj] at hread
  have hnegative := not_negative_of_ofDecimal (hread ▸ hview)
  rw [text, hview]
  unfold textIn
  dsimp only
  rw [hnegative, if_neg Bool.false_ne_true, String.empty_append, String.empty_append]
  split
  · exact ⟨['0'], ['0'], rfl, isDigits_zero, isDigits_zero⟩
  · obtain ⟨whole, fraction, htext, hwhole, hfraction, _⟩ :=
      positional_eq (shortest .up parts.significand parts.exponent)
    refine ⟨whole, fraction, ?_, hwhole, hfraction⟩
    show (shortest .up parts.significand parts.exponent).positional.toList = _
    rw [htext, String.toList_ofList]

end Double

end Pron
