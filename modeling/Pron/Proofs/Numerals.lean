import Pron.Proofs.Scopes
import Pron.Proofs.Syntax.RoundTrip

/-!
# The texts of integers as programs

A numeral has no sign: what is shown of a negative integer is read as a minus before the numeral of its opposite, and
evaluates to the integer again. So every integer is got back from what is shown of it (`Store.display_integer_read`),
but for the least one. It has no opposite, and what stands behind its minus is out of the range of numerals.
-/

namespace Pron

/-- A program that is one expression has its value. -/
theorem Eval.program_of_expr {rec : Expr → FrameId → Eval Value} {e : Expr} {E : FrameId} {s t : Store} {v : Value}
    (h : rec e E s = .ok v t) : Eval.program rec [.expr e] E s = .ok v t := by
  have hblock : Eval.block rec [.expr e] E s = .ok v t := (Eval.bind_of_ok h).trans rfl
  show Eval.catchReturn (Eval.block rec [.expr e] E) s = _
  rw [Eval.catchReturn, hblock]

namespace Integer

open Scan Grammar

variable {n : Int64}

/-- Of all integers, only the least one has no opposite. -/
theorem toInt_neg_of_ne (h : n ≠ Int64.minValue) : (-n).toInt = -n.toInt := by
  have hleast : n.toInt ≠ -2 ^ 63 := fun heq => h (Int64.toInt_inj.1 heq)
  have hlower := n.le_toInt
  have hupper := n.toInt_lt
  rw [Int64.toInt_neg]
  exact Int.bmod_eq_of_le (by omega) (by omega)

/-- What the text of an integer stands for. -/
def numeral (n : Int64) : Expr := if n.toInt < 0 then .unary .negate (.integer (-n)) else .integer n

theorem legible_of_nonneg (h : 0 ≤ n.toInt) : (Expr.integer n).Legible :=
  have hdigits := digits_of_nonneg h
  .integer hdigits.1 hdigits.2

theorem numeral_reads (hn : n ≠ Int64.minValue) (line : Nat) : ∃ line',
    Reads .greedy (.expression .lowest) (tokensAt line (text n).toList) (numeral n) (tokensAt line' []) := by
  unfold numeral
  split
  · next hneg =>
    -- the digits behind the minus are those of the opposite
    have hopposite := toInt_neg_of_ne hn
    have hpos : 0 ≤ (-n).toInt := by omega
    have htext : (text n).toList = '-' :: (text (-n)).toList := by
      rw [text_of_neg hneg, text_of_nonneg hpos, hopposite, Int.natAbs_neg]
    have hlegible := legible_of_nonneg hpos
    obtain ⟨c, k, hminus, hop, htok⟩ := unary_symbol .negate
    obtain rfl : c = '-' := (List.cons.inj hminus).1.symm
    obtain ⟨line', hdigits⟩ := hlegible.whole ends_nil (p := .unary) (by decide) line
    have htok := htok line hlegible.head
    rw [Expr.render, List.append_nil] at hdigits
    rw [Expr.render] at htok
    rw [htext]
    exact ⟨line', .expression (.unary hop htok hdigits) (.stop fun _ => ends_nil.stops _ _)⟩
  · next hpos =>
    obtain ⟨line', hdigits⟩ := (legible_of_nonneg (Int.not_lt.1 hpos)).full ends_nil line
    rw [Expr.render, List.append_nil] at hdigits
    exact ⟨line', hdigits⟩

/-- The text of an integer, but for the least one, is read as one expression. -/
theorem parseSource_text (hn : n ≠ Int64.minValue) : parseSource (text n) = ⟨[.expr (numeral n)], []⟩ := by
  obtain ⟨line, hreads⟩ := numeral_reads hn 1
  have hend : Step.kindOf (tokensAt line []) = .eof := by
    rw [tokensAt_nil]
    rfl
  have hstatement := Reads.expr hreads (.missing id fun _ => by rw [hend]; nofun)
  exact (Reads.statements hstatement .noStatements).parse_eq hend

/-- The numeral of the least integer would be out of range. -/
theorem parseSource_text_minValue :
    (parseSource (text Int64.minValue)).errors = [.badInteger "9223372036854775808"] := by
  decide +kernel

/-- What the text of an integer stands for is that integer, wherever it is evaluated. -/
theorem expr_numeral (n : Int64) (library : Library) (depth : Nat) (s : Store) (E : FrameId) :
    ∃ v t, Eval.expr library (depth + 2) (numeral n) E s = .ok v t ∧ t.datum v = .object (.integer n) := by
  unfold numeral
  split
  · -- the opposite is made first, and the minus makes its opposite again
    have hoperand : Eval.expr library (depth + 1) (.integer (-n)) E s =
        .ok (s.alloc (.integer (-n))).1 (s.alloc (.integer (-n))).2 := rfl
    have hminus : Eval.expr library (depth + 2) (.unary .negate (.integer (-n))) E s =
        Eval.give (.object (.integer (- -n))) (s.alloc (.integer (-n))).2 := by
      refine (Eval.bind_of_ok hoperand).trans ?_
      rw [Eval.datum_bind, Store.datum_alloc_self]
      rfl
    rw [Int64.neg_neg] at hminus
    exact ⟨_, _, hminus, Store.datum_alloc_self⟩
  · exact ⟨_, _, rfl, Store.datum_alloc_self⟩

end Integer

namespace Store

variable {s : Store} {v : Value} {n : Int64}

/-- **Integers are got back from what is shown of them.** The text that is shown of an integer is read without errors
and evaluates in every environment to an integer with the same number, unless it is the least integer; the text of that
one is refused as a numeral out of range. -/
theorem display_integer_read (hv : s.datum v = .object (.integer n)) :
    (n ≠ Int64.minValue → (parseSource (s.display v)).errors = [] ∧
      ∀ library depth t E, ∃ w u,
        Eval.program (Eval.expr library (depth + 2)) (parseSource (s.display v)).program E t = .ok w u ∧
          u.datum w = .object (.integer n)) ∧
    (n = Int64.minValue → (parseSource (s.display v)).errors = [.badInteger "9223372036854775808"]) := by
  rw [display_integer hv]
  refine ⟨fun hn => ?_, fun hn => ?_⟩
  · rw [Integer.parseSource_text hn]
    refine ⟨rfl, fun library depth t E => ?_⟩
    obtain ⟨w, u, heval, hw⟩ := Integer.expr_numeral n library depth t E
    exact ⟨w, u, Eval.program_of_expr heval, hw⟩
  · rw [hn]
    exact Integer.parseSource_text_minValue

/-- The store with one integer. -/
def holding (n : Int64) : Store := (empty.alloc (.integer n)).2

/-- The integer next to the least one is got back. -/
theorem holding_integer_read :
    let n := Int64.minValue + 1
    (holding n).datum (.ref ⟨0⟩) = .object (.integer n) ∧ n ≠ Int64.minValue ∧
      (parseSource ((holding n).display (.ref ⟨0⟩))).errors = [] := by
  have hn : Int64.minValue + 1 ≠ Int64.minValue := by decide
  exact ⟨rfl, hn, ((display_integer_read rfl).1 hn).1⟩

/-- The least integer is not got back. -/
theorem least_not_read : ¬∀ (s : Store) (v : Value) (n : Int64), s.datum v = .object (.integer n) →
    (parseSource (s.display v)).errors = [] := by
  intro h
  have hread := h (holding Int64.minValue) (.ref ⟨0⟩) Int64.minValue rfl
  rw [display_integer rfl, Integer.parseSource_text_minValue] at hread
  cases hread

end Store

end Pron
