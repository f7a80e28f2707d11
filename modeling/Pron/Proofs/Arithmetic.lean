import Pron.Proofs.Growth

/-!
# Operators between integers

The operand on the left is an object that is held while the operand on the right is evaluated. It stays an integer, and
only `x++` and `x--` can give it another number; so the operands count with the numbers that they were evaluated to as
long as the operand on the right does not step the very integer on the left (`Eval.operands_hold`).

On these numbers the operators are those of all integers, taken modulo `2 ^ 64` (`integer_arithmetic`). Only a division
by zero fails. The one quotient that is out of range, that of the least integer by `-1`, is again the least integer, and
the law of division holds for it as well.
-/

namespace Pron

variable {library : Library} {n : Nat} {op : BinaryOp} {l r : Expr} {E : FrameId} {s s₁ s₂ t : Store} {u v : Value}
  {a b : Int64}

/-! ## Operands -/

/-- Between integers the operators work on the numbers. -/
theorem Operator.binary_integers (hu : s.datum u = .object (.integer a)) (hv : s.datum v = .object (.integer b))
    (op : BinaryOp) : binary s op u v = integers op a b := by rw [binary, hu, hv]

/-- The operands are looked at when both have been evaluated. -/
theorem Eval.binary_of_operands (hop : op ≠ .assign) (hl : expr library n l E s = .ok u s₁)
    (hr : expr library n r E s₁ = .ok v s₂) :
    expr library (n + 1) (.binary op l r) E s = (ofExcept (Operator.binary s₂ op u v) >>= give) s₂ := by
  have hnode : expr library (n + 1) (.binary op l r) E s = (expr library n l E >>= fun u =>
      expr library n r E >>= fun v => get >>= fun t => ofExcept (Operator.binary t op u v) >>= give) s := by
    cases op with
    | assign => exact absurd rfl hop
    | _ => rfl
  rw [hnode, bind_of_ok hl, bind_of_ok hr, get_bind]

/-- An integer stays an integer. -/
theorem Eval.integer_stays (hu : s.datum u = .object (.integer a)) (library : Library) (n : Nat) (e : Expr)
    (E : FrameId) : ∃ k, (Outcome.of (expr library n e E) s).2.datum u = .object (.integer k) := by
  obtain ⟨o, ho, hbecomes⟩ := ((Eval.store_becomes s library n E).1 e).object hu
  cases hbecomes with
  | same => exact ⟨a, ho⟩
  | integer _ k => exact ⟨k, ho⟩

/-- `x++` or `x--` for a given value, whatever name it goes by. -/
def stepsValue (u : Value) (e : Expr) (E : FrameId) (s : Store) : Bool :=
  match e with
  | .increment x | .decrement x => decide (s.get? E x = some u)
  | _ => false

namespace Invariant

open Store

/-- An integer has its number. -/
def numbered (u : Value) (a : Int64) : Invariant where
  Holds s := s.datum u = .object (.integer a)
  Later _ _ _ := True
  Quiet _ _ := True
  guard _ := .all
  refl _ _ := trivial
  trans _ _ := trivial
  mono _ := ⟨id, id, id, id, id⟩
  fewer _ _ := trivial
  quiet_refl _ := trivial
  quiet_trans _ _ := trivial
  quiet_later _ _ := trivial
  filed_mono _ _ := trivial
  filed_later _ _ _ := trivial
  null _ := trivial
  boolean _ _ := trivial
  owner_frame _ := trivial
  owner_maker _ := trivial
  object _ _ _ := Guard.all_object _
  parent _ _ _ := trivial
  binding _ _ _ := trivial
  filed _ _ _ := trivial
  filed_copy _ _ _ _ := trivial
  alloc hu _ := ⟨(datum_alloc (hasValue_of_datum hu)).trans hu, trivial, trivial⟩
  newFrame hu _ _ _ := ⟨hu, trivial, trivial, fun _ => trivial⟩
  set _ hu _ _ := ⟨hu, trivial⟩
  erase _ hu _ hhash := by
    refine ⟨(datum_write_of_ne ?_).trans hu, trivial⟩
    rintro rfl
    rw [hu] at hhash
    cases hhash
  print _ hu := ⟨hu, trivial⟩
  request _ hu := ⟨hu, trivial⟩

/-- Steps of other integers leave it alone. -/
theorem numbered_steps (u : Value) (a : Int64) (keys : List Value) : (numbered u a).Steps keys (stepsValue u) := by
  refine steps_of_write fun {s E x id n} up m hu _ hget _ hstop => ⟨(datum_write_of_ne ?_).trans hu, trivial⟩
  rintro rfl
  cases up <;> simp [stepsValue, hget] at hstop

end Invariant

/-- An evaluation that gets to its end without a step of an integer leaves it its number. -/
theorem Eval.number_of_unstepped (hu : s.datum u = .object (.integer a)) {e : Expr}
    (he : exprUntil library (fun _ => stepsValue u) n [] e E s = .ok v t) : t.datum u = .object (.integer a) := by
  have hrecs := Invariant.recs (Invariant.numbered_steps u a) library n []
  have hends : (Invariant.numbered u a).Ends [] s _ (exprUntil library (fun _ => stepsValue u) n [] e E s) :=
    .of_values (hrecs s e ⟨rfl, trivial⟩) hu
  rw [he] at hends
  exact hends.1

/-- **Operands.** When the operand on the left is evaluated to an integer, and that on the right next to it, then the
number on the right is the one it has there. The number on the left is the one that this integer has at the end; it is
the one that it had at first if the integer is not stepped on the right, whatever else happens there. -/
theorem Eval.operands_hold (hop : op ≠ .assign) (hl : expr library n l E s = .ok u s₁)
    (hu : s₁.datum u = .object (.integer a)) (hr : expr library n r E s₁ = .ok v s₂)
    (hv : s₂.datum v = .object (.integer b)) :
    (∃ k, s₂.datum u = .object (.integer k) ∧
      expr library (n + 1) (.binary op l r) E s = (ofExcept (Operator.integers op k b) >>= give) s₂) ∧
    (exprUntil library (fun _ => stepsValue u) n [] r E s₁ = .ok v s₂ →
      expr library (n + 1) (.binary op l r) E s = (ofExcept (Operator.integers op a b) >>= give) s₂) := by
  have hnumbers {k : Int64} (hk : s₂.datum u = .object (.integer k)) :
      expr library (n + 1) (.binary op l r) E s = (ofExcept (Operator.integers op k b) >>= give) s₂ := by
    rw [binary_of_operands hop hl hr, Operator.binary_integers hk hv]
  refine ⟨?_, fun hunstepped => hnumbers (number_of_unstepped hu hunstepped)⟩
  obtain ⟨k, hk⟩ := integer_stays hu library n r E
  rw [Outcome.of, hr] at hk
  exact ⟨k, hk, hnumbers hk⟩

/-- The store after `var x = 1; var y = 5;`. -/
def twoNumbers : Store :=
  (Outcome.of (Eval.program (Eval.expr (Library.ofUnits []) 3) [.var "x" (.integer 1), .var "y" (.integer 5)]
    Session.start.frame) Session.start.store).2

/-- In `x - y++` the number on the left is not touched. -/
theorem twoNumbers_operands_hold :
    let after := (twoNumbers.write ⟨1⟩ (.integer 6)).set ⟨0⟩ "y" (.ref ⟨1⟩)
    BinaryOp.sub ≠ .assign ∧ Eval.expr (Library.ofUnits []) 1 (.name "x") ⟨0⟩ twoNumbers = .ok (.ref ⟨0⟩) twoNumbers ∧
      twoNumbers.datum (.ref ⟨0⟩) = .object (.integer 1) ∧
      Eval.expr (Library.ofUnits []) 1 (.increment "y") ⟨0⟩ twoNumbers = .ok (.ref ⟨1⟩) after ∧
      after.datum (.ref ⟨1⟩) = .object (.integer 6) ∧
      Eval.exprUntil (Library.ofUnits []) (fun _ => stepsValue (.ref ⟨0⟩)) 1 [] (.increment "y") ⟨0⟩ twoNumbers =
        .ok (.ref ⟨1⟩) after ∧
      Eval.expr (Library.ofUnits []) 2 (.binary .sub (.name "x") (.increment "y")) ⟨0⟩ twoNumbers =
        Eval.give (.object (.integer (-5))) after := by
  intro after
  have hop : BinaryOp.sub ≠ .assign := by decide
  have hleft : Eval.expr (Library.ofUnits []) 1 (.name "x") ⟨0⟩ twoNumbers = .ok (.ref ⟨0⟩) twoNumbers := rfl
  have hright : Eval.expr (Library.ofUnits []) 1 (.increment "y") ⟨0⟩ twoNumbers = .ok (.ref ⟨1⟩) after := rfl
  have hnumber : after.datum (.ref ⟨1⟩) = .object (.integer 6) := rfl
  have hdifference : (1 : Int64) - 6 = -5 := by decide
  refine ⟨hop, hleft, rfl, hright, hnumber, rfl, ((Eval.operands_hold hop hleft rfl hright hnumber).2 rfl).trans ?_⟩
  rw [Operator.integers, hdifference]
  rfl

/-- In `x + x++` the number on the left is the new one as well. -/
theorem twoNumbers_operand_stepped :
    ¬∀ (library : Library) (n : Nat) (op : BinaryOp) (l r : Expr) (E : FrameId) (s s₁ s₂ : Store) (u v : Value)
      (a b : Int64), op ≠ .assign → Eval.expr library n l E s = .ok u s₁ → s₁.datum u = .object (.integer a) →
        Eval.expr library n r E s₁ = .ok v s₂ → s₂.datum v = .object (.integer b) →
        Eval.expr library (n + 1) (.binary op l r) E s =
          (Eval.ofExcept (Operator.integers op a b) >>= Eval.give) s₂ := by
  intro h
  have hsum := h (Library.ofUnits []) 1 .add (.name "x") (.increment "x") ⟨0⟩ twoNumbers _ _ _ _ 1 2 (by decide) rfl rfl
    rfl rfl
  -- the sum is `4`, not `3`
  have hnumber := congrArg (fun r => match r with
    | EStateM.Result.ok v t => (t.datum v).keyContent?
    | .error _ _ => none) hsum
  exact absurd hnumber (by decide)

/-! ## Numbers -/

/-- An integer taken modulo `2 ^ 64`. -/
abbrev wrapped (k : Int) : Datum := .object (.integer (.ofInt k))

namespace Integer

theorem add_eq_ofInt (a b : Int64) : a + b = .ofInt (a.toInt + b.toInt) := by
  rw [Int64.ofInt_add, Int64.ofInt_toInt, Int64.ofInt_toInt]

theorem sub_eq_ofInt (a b : Int64) : a - b = .ofInt (a.toInt - b.toInt) := by
  rw [Int64.ofInt_sub, Int64.ofInt_toInt, Int64.ofInt_toInt]

theorem mul_eq_ofInt (a b : Int64) : a * b = .ofInt (a.toInt * b.toInt) := by
  rw [Int64.ofInt_mul, Int64.ofInt_toInt, Int64.ofInt_toInt]

theorem neg_eq_ofInt (a : Int64) : -a = .ofInt (-a.toInt) := by rw [Int64.ofInt_neg, Int64.ofInt_toInt]

theorem div_eq_ofInt (a b : Int64) : a / b = .ofInt (a.toInt.tdiv b.toInt) := by
  rw [Int64.ofInt_tdiv a.minValue_le_toInt a.toInt_le b.minValue_le_toInt b.toInt_le, Int64.ofInt_toInt,
    Int64.ofInt_toInt]

theorem mod_eq_ofInt (a b : Int64) : a % b = .ofInt (a.toInt.tmod b.toInt) := by
  rw [Int64.ofInt_tmod a.minValue_le_toInt a.toInt_le b.minValue_le_toInt b.toInt_le, Int64.ofInt_toInt,
    Int64.ofInt_toInt]

/-- The law of division survives the one quotient that is out of range, as all the rest is taken modulo `2 ^ 64`. -/
theorem div_mul_add_mod (a b : Int64) : a / b * b + a % b = a :=
  calc a / b * b + a % b
      = .ofInt (a.toInt.tdiv b.toInt) * .ofInt b.toInt + .ofInt (a.toInt.tmod b.toInt) := by
        rw [div_eq_ofInt, mod_eq_ofInt, Int64.ofInt_toInt]
    _ = .ofInt (a.toInt.tdiv b.toInt * b.toInt + a.toInt.tmod b.toInt) := by rw [Int64.ofInt_add, Int64.ofInt_mul]
    _ = a := by rw [Int.tdiv_mul_add_tmod, Int64.ofInt_toInt]

end Integer

/-! ## Expressions that compute with numbers -/

/-- With these objects or more, an expression evaluates to an integer with a certain number and only adds objects. -/
def Denotes (library : Library) (n : Nat) (e : Expr) (E : FrameId) (s : Store) (k : Int64) : Prop :=
  ∀ m t, n ≤ m → s.Adds t →
    ∃ v u, Eval.expr library m e E t = .ok v u ∧ t.Adds u ∧ u.datum v = .object (.integer k)

namespace Denotes

theorem deeper {m : Nat} {e : Expr} {k : Int64} (h : Denotes library n e E s k) (hm : n ≤ m) :
    Denotes library m e E s k := fun m' t hm' hst => h m' t (Nat.le_trans hm hm') hst

/-- A name stands for the number that it is bound to. -/
theorem name {x : String} {k : Int64} (hget : s.get? E x = some v) (hv : s.datum v = .object (.integer k)) :
    Denotes library 1 (.name x) E s k := by
  rintro (_ | m) t hm hst
  · cases hm
  · have hread : Eval.expr library (m + 1) (.name x) E t = .ok v t := by
      show Eval.readName x E t = _
      unfold Eval.readName
      rw [Eval.get_bind, hst.get?, hget]
      rfl
    exact ⟨v, t, hread, .refl t, (hst.datum (Store.hasValue_of_datum hv)).trans hv⟩

/-- Operators compute with the numbers that their operands stand for. -/
theorem binary {k : Int64} (hop : op ≠ .assign) (hl : Denotes library n l E s a) (hr : Denotes library n r E s b)
    (hk : Operator.integers op a b = .ok (.object (.integer k))) : Denotes library (n + 1) (.binary op l r) E s k := by
  rintro (_ | m) t hm hst
  · cases hm
  · have hm := Nat.le_of_succ_le_succ hm
    obtain ⟨v, t₁, hleft, htt₁, hv⟩ := hl m t hm hst
    obtain ⟨w, t₂, hright, ht₁t₂, hw⟩ := hr m t₁ hm (hst.trans htt₁)
    -- the operand on the right only adds objects, so that on the left keeps its number
    have hv₂ := (ht₁t₂.datum (Store.hasValue_of_datum hv)).trans hv
    have hresult : Eval.expr library (m + 1) (.binary op l r) E t = Eval.give (.object (.integer k)) t₂ := by
      rw [Eval.binary_of_operands hop hleft hright, Operator.binary_integers hv₂ hw, hk]
      rfl
    exact ⟨_, _, hresult, (htt₁.trans ht₁t₂).trans (.alloc _ _), Store.datum_alloc_self⟩

end Denotes

/-! ## Arithmetic -/

/-- What an operator does with operands that are evaluated to integers with certain numbers. -/
def Operates (op : BinaryOp) (a b : Int64) (result : Eval Value) : Prop :=
  ∀ (library : Library) (n : Nat) (l r : Expr) (E : FrameId) (s s₁ s₂ : Store) (u v : Value),
    Eval.expr library n l E s = .ok u s₁ → Eval.expr library n r E s₁ = .ok v s₂ →
    s₂.datum u = .object (.integer a) → s₂.datum v = .object (.integer b) →
    Eval.expr library (n + 1) (.binary op l r) E s = result s₂

/-- What the minus does with an operand that is evaluated to an integer with a certain number. -/
def Negates (a : Int64) (result : Eval Value) : Prop :=
  ∀ (library : Library) (n : Nat) (e : Expr) (E : FrameId) (s t : Store) (v : Value),
    Eval.expr library n e E s = .ok v t → t.datum v = .object (.integer a) →
    Eval.expr library (n + 1) (.unary .negate e) E s = result t

theorem operates (hop : op ≠ .assign) (a b : Int64) :
    Operates op a b (Eval.ofExcept (Operator.integers op a b) >>= Eval.give) := by
  intro library n l r E s s₁ s₂ u v hl hr hu hv
  rw [Eval.binary_of_operands hop hl hr, Operator.binary_integers hu hv]

theorem operates_give {d : Datum} (hop : op ≠ .assign) (hd : Operator.integers op a b = .ok d) :
    Operates op a b (Eval.give d) := by
  have hresult := operates hop a b
  rw [hd] at hresult
  exact hresult

theorem operates_fail {e : RuntimeError} (hop : op ≠ .assign) (he : Operator.integers op a b = .error e) :
    Operates op a b (Eval.fail e) := by
  have hresult := operates hop a b
  rw [he] at hresult
  exact hresult

/-- The number that an operator gives, as one of all integers. -/
theorem operates_wrapped {k : Int64} {m : Int} (hop : op ≠ .assign)
    (hk : Operator.integers op a b = .ok (.object (.integer k))) (hm : k = .ofInt m) :
    Operates op a b (Eval.give (wrapped m)) := by
  rw [wrapped, ← hm]
  exact operates_give hop hk

/-- The truth value that an operator gives, as one about all integers. -/
theorem operates_decide {p q : Prop} [Decidable p] [Decidable q] (hop : op ≠ .assign)
    (hp : Operator.integers op a b = .ok (.boolean (decide p))) (hpq : p ↔ q) :
    Operates op a b (Eval.give (.boolean (decide q))) := decide_eq_decide.2 hpq ▸ operates_give hop hp

theorem negates (a : Int64) : Negates a (Eval.give (wrapped (-a.toInt))) := by
  intro library n e E s t v he hv
  have hnode : Eval.expr library (n + 1) (.unary .negate e) E s = (Eval.expr library n e E >>= fun v =>
      Eval.datum v >>= fun d => Eval.ofExcept (Operator.unary .negate d) >>= Eval.give) s := rfl
  rw [hnode, Eval.bind_of_ok he, Eval.datum_bind, hv]
  show Eval.give (.object (.integer (-a))) t = _
  rw [Integer.neg_eq_ofInt]

theorem integers_div (hb : b ≠ 0) : Operator.integers .div a b = .ok (.object (.integer (a / b))) := if_neg hb

theorem integers_mod (hb : b ≠ 0) : Operator.integers .mod a b = .ok (.object (.integer (a % b))) := if_neg hb

/-- The operators on integers with the numbers `a` and `b`, in terms of all integers. -/
structure IntegerArithmetic (a b : Int64) : Prop where
  add : Operates .add a b (Eval.give (wrapped (a.toInt + b.toInt)))
  sub : Operates .sub a b (Eval.give (wrapped (a.toInt - b.toInt)))
  mul : Operates .mul a b (Eval.give (wrapped (a.toInt * b.toInt)))
  neg : Negates a (Eval.give (wrapped (-a.toInt)))
  div_zero : b = 0 → Operates .div a b (Eval.fail (.divisionByZero .div a b))
  mod_zero : b = 0 → Operates .mod a b (Eval.fail (.divisionByZero .mod a b))
  div : b ≠ 0 → Operates .div a b (Eval.give (wrapped (a.toInt.tdiv b.toInt)))
  mod : b ≠ 0 → Operates .mod a b (Eval.give (wrapped (a.toInt.tmod b.toInt)))
  /-- All quotients but one are in range. -/
  quotient : a ≠ Int64.minValue ∨ b ≠ -1 → (Int64.ofInt (a.toInt.tdiv b.toInt)).toInt = a.toInt.tdiv b.toInt
  /-- All remainders are in range. They have the sign of what is divided, and are less than what it is divided by. -/
  remainder : (Int64.ofInt (a.toInt.tmod b.toInt)).toInt = a.toInt.tmod b.toInt ∧
    (0 ≤ a.toInt → 0 ≤ a.toInt.tmod b.toInt) ∧ (a.toInt ≤ 0 → a.toInt.tmod b.toInt ≤ 0) ∧
    (b ≠ 0 → (a.toInt.tmod b.toInt).natAbs < b.toInt.natAbs)
  least_div : Operates .div Int64.minValue (-1) (Eval.give (.object (.integer Int64.minValue)))
  least_mod : Operates .mod Int64.minValue (-1) (Eval.give (.object (.integer 0)))
  /-- The law of division, for expressions that stand for the numbers. -/
  division {library : Library} {n : Nat} {l r : Expr} {E : FrameId} {s : Store} : b ≠ 0 →
    Denotes library n l E s a → Denotes library n r E s b →
    Denotes library (n + 3) (.binary .add (.binary .mul (.binary .div l r) r) (.binary .mod l r)) E s a
  lt : Operates .lt a b (Eval.give (.boolean (decide (a.toInt < b.toInt))))
  gt : Operates .gt a b (Eval.give (.boolean (decide (b.toInt < a.toInt))))
  eq : Operates .eq a b (Eval.give (.boolean (decide (a.toInt = b.toInt))))
  ne : Operates .ne a b (Eval.give (.boolean (decide (a.toInt ≠ b.toInt))))

/-- The law of division. -/
theorem Denotes.division (hb : b ≠ 0) (hl : Denotes library n l E s a) (hr : Denotes library n r E s b) :
    Denotes library (n + 3) (.binary .add (.binary .mul (.binary .div l r) r) (.binary .mod l r)) E s a := by
  have hquotient : Denotes library (n + 1) (.binary .div l r) E s (a / b) := .binary nofun hl hr (integers_div hb)
  have hproduct : Denotes library (n + 2) (.binary .mul (.binary .div l r) r) E s (a / b * b) :=
    .binary nofun hquotient (hr.deeper (Nat.le_succ n)) rfl
  have hremainder : Denotes library (n + 1) (.binary .mod l r) E s (a % b) := .binary nofun hl hr (integers_mod hb)
  have hsum : Denotes library (n + 3) (.binary .add _ _) E s (a / b * b + a % b) :=
    .binary nofun hproduct (hremainder.deeper (Nat.le_succ _)) rfl
  rwa [Integer.div_mul_add_mod] at hsum

/-- **Arithmetic.** Whatever two numbers the operands have, the operators between integers compute with them as with all
integers, modulo `2 ^ 64`; they fail for a division by zero, and in no other case. -/
theorem integer_arithmetic (a b : Int64) : IntegerArithmetic a b where
  add := operates_wrapped nofun rfl (Integer.add_eq_ofInt a b)
  sub := operates_wrapped nofun rfl (Integer.sub_eq_ofInt a b)
  mul := operates_wrapped nofun rfl (Integer.mul_eq_ofInt a b)
  neg := negates a
  div_zero hb := operates_fail nofun (if_pos hb)
  mod_zero hb := operates_fail nofun (if_pos hb)
  div hb := operates_wrapped nofun (integers_div hb) (Integer.div_eq_ofInt a b)
  mod hb := operates_wrapped nofun (integers_mod hb) (Integer.mod_eq_ofInt a b)
  quotient h := by
    rw [← Integer.div_eq_ofInt]
    rcases h with ha | hb
    · exact Int64.toInt_div_of_ne_left _ _ ha
    · exact Int64.toInt_div_of_ne_right _ _ hb
  remainder := by
    rw [← Integer.mod_eq_ofInt]
    refine ⟨Int64.toInt_mod a b, Int.tmod_nonneg _, fun ha => ?_, fun hb => ?_⟩
    · have hopposite := Int.tmod_nonneg b.toInt (Int.neg_nonneg_of_nonpos ha)
      rw [Int.neg_tmod] at hopposite
      omega
    · rw [Int.natAbs_tmod]
      exact Nat.mod_lt _ (Int.natAbs_pos.2 fun h => hb (Int64.toInt_inj.1 h))
  least_div := by
    have hquotient : Int64.minValue / -1 = Int64.minValue := by decide
    have hminus : (-1 : Int64) ≠ 0 := by decide
    have hresult : Operates .div Int64.minValue (-1) _ := operates_give nofun (integers_div hminus)
    rwa [hquotient] at hresult
  least_mod := by
    have hremainder : Int64.minValue % -1 = 0 := by decide
    have hminus : (-1 : Int64) ≠ 0 := by decide
    have hresult : Operates .mod Int64.minValue (-1) _ := operates_give nofun (integers_mod hminus)
    rwa [hremainder] at hresult
  division := .division
  lt := operates_decide nofun rfl Int64.lt_iff_toInt_lt
  gt := operates_decide nofun rfl Int64.lt_iff_toInt_lt
  eq := operates_decide nofun rfl Int64.toInt_inj.symm
  ne := operates_decide nofun rfl (not_congr Int64.toInt_inj.symm)

/-- The store after `var x = -9223372036854775807 - 1; var y = -1;`. -/
def leastNumber : Store :=
  (Outcome.of (Eval.program (Eval.expr (Library.ofUnits []) 5)
    [.var "x" (.binary .sub (.unary .negate (.integer Int64.maxValue)) (.integer 1)),
      .var "y" (.unary .negate (.integer 1))]
    Session.start.frame) Session.start.store).2

/-- There `(x / y) * y + x % y` is evaluated to `x`. -/
theorem leastNumber_division :
    ∃ v t, Eval.expr (Library.ofUnits []) 4
      (.binary .add (.binary .mul (.binary .div (.name "x") (.name "y")) (.name "y"))
        (.binary .mod (.name "x") (.name "y"))) ⟨0⟩ leastNumber = .ok v t ∧
      t.datum v = .object (.integer Int64.minValue) := by
  have hx : Denotes (Library.ofUnits []) 1 (.name "x") ⟨0⟩ leastNumber Int64.minValue := .name rfl rfl
  have hy : Denotes (Library.ofUnits []) 1 (.name "y") ⟨0⟩ leastNumber (-1) := .name rfl rfl
  have hlaw := (integer_arithmetic Int64.minValue (-1)).division (by decide) hx hy
  obtain ⟨v, t, heval, -, hv⟩ := hlaw 4 leastNumber (Nat.le_refl 4) (.refl _)
  exact ⟨v, t, heval, hv⟩

end Pron
