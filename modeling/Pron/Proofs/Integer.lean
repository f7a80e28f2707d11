import Pron.Proofs.Token.Lexeme
import Pron.Integer

/-!
# The text of integers

What is written of an integer is read back as it and an integer that is read from digits alone is
written in digits alone (`text_digits`).
-/

namespace Pron.Integer

variable {n : Int64} {digits : List Char}

theorem ofInt?_toInt (n : Int64) : ofInt? n.toInt = some n := by
  have hrange : Int64.minValue.toInt ≤ n.toInt ∧ n.toInt ≤ Int64.maxValue.toInt := ⟨n.minValue_le_toInt, n.toInt_le⟩
  rw [ofInt?, if_pos hrange, Int64.ofInt_toInt]

theorem readDigits_toDigits (n : Nat) : readDigits (Nat.toDigits 10 n) = some n := by
  obtain ⟨hne, hdigits⟩ := isDigits_toDigits n
  rw [readDigits, if_pos ⟨hne, List.all_eq_true.2 hdigits⟩, Nat.ofDigitChars_toDigits (by decide) (by decide)]

/-- Digits alone are read without a sign. -/
theorem read?_digits {text : String} (h : IsDigits text.toList) :
    read? text = (readDigits text.toList).bind fun n => ofInt? n := by
  unfold read?
  split
  · next hminus =>
    cases h.2 '-' (hminus ▸ List.mem_cons_self ..)
  · next hplus =>
    cases h.2 '+' (hplus ▸ List.mem_cons_self ..)
  · rfl

theorem text_of_nonneg (h : 0 ≤ n.toInt) : (text n).toList = Nat.toDigits 10 n.toInt.natAbs := by
  rw [text, if_neg (Int.not_lt.2 h), List.nil_append, String.toList_ofList]

theorem text_of_neg (h : n.toInt < 0) : (text n).toList = '-' :: Nat.toDigits 10 n.toInt.natAbs := by
  rw [text, if_pos h, String.toList_ofList, List.singleton_append]

/-- An integer that is not negative is written in digits alone, and read back from these. -/
theorem digits_of_nonneg (h : 0 ≤ n.toInt) : IsDigits (text n).toList ∧ read? (text n) = some n := by
  have hdigits := text_of_nonneg h
  have htext : IsDigits (text n).toList := by
    rw [hdigits]
    exact isDigits_toDigits _
  refine ⟨htext, ?_⟩
  rw [read?_digits htext, hdigits, readDigits_toDigits, Option.bind_some, Int.natAbs_of_nonneg h, ofInt?_toInt]

/-- What is read from digits alone is not negative, is written in digits alone, and read back from these. -/
theorem text_digits {x : String} (hx : IsDigits x.toList) (hread : read? x = some n) :
    IsDigits (text n).toList ∧ read? (text n) = some n := by
  rw [read?_digits hx] at hread
  obtain ⟨k, _, hk⟩ := Option.bind_eq_some_iff.1 hread
  unfold ofInt? at hk
  split at hk
  · next hrange =>
    cases hk
    refine digits_of_nonneg ?_
    rw [Int64.toInt_minValue, Int64.toInt_maxValue] at hrange
    rw [Int64.toInt_ofInt_of_le hrange.1 (by omega)]
    exact Int.natCast_nonneg k
  · cases hk

end Pron.Integer
