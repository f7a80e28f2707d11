import Pron.Proofs.Growth
import Pron.Proofs.Store.Scope

/-!
# Counting loops

A counting loop from `a` to `b` has as many rounds as there are numbers from `a` on up to, or down to, `b`, which is
left out (`Counting.rounds`). What a round may do to the store, to the variable of the loop and to what the bounds were
computed from has no influence on the rounds that follow: each starts with a new integer of its own number
(`Counting.number`), and only a round that does not end with a value ends the loop. The numbers lie between the bounds,
so none of them is beyond what an integer can be.
-/

namespace Pron

/-- A counting loop: the frame around it, its own frame, its variable, and its bounds. -/
structure Counting where
  around : FrameId
  frame : FrameId
  x : String
  start : Int64
  stop : Int64

namespace Counting

variable (c : Counting)

/-- How many rounds there are, if none ends the loop. -/
def rounds : Nat := (c.stop.toInt - c.start.toInt).natAbs

/-- The number with which round `k` starts. -/
def number (k : Nat) : Int := if c.start < c.stop then c.start.toInt + k else c.start.toInt - k

/-- The loop has a new frame, in which its variable is bound to `null` and nothing else is bound. -/
structure Opens (s t : Store) : Prop where
  new : ¬s.HasFrame c.frame
  inside : t.parent? c.frame = some c.around
  bindings : t.bindings c.frame = [(c.x, .null)]
  other {F : FrameId} : s.HasFrame F → t.parent? F = s.parent? F ∧ t.bindings F = s.bindings F
  objects : t.objects = s.objects
  printed : t.printed = s.printed
  requests : t.requests = s.requests

/-- Round `k` starts with the variable bound to a new integer, in the one frame of the loop. -/
structure Starts (k : Nat) (s t : Store) : Prop where
  inside : t.parent? c.frame = some c.around
  counter : ∃ v n, ¬s.HasValue v ∧ t.localValue? c.frame c.x = some v ∧ t.datum v = .object (.integer n) ∧
    n.toInt = c.number k
  other {F : FrameId} {y : String} : F ≠ c.frame ∨ y ≠ c.x → t.localValue? F y = s.localValue? F y
  parent (F : FrameId) : t.parent? F = s.parent? F
  values {v : Value} : s.HasValue v → t.datum v = s.datum v
  printed : t.printed = s.printed
  requests : t.requests = s.requests

/-- `c.Runs body k last s r` says that the loop, of which `k` rounds have been run, the last with the value `last`, goes
on from `s` and ends with `r`: it runs the rounds that are left, or some of them up to one that does not end with a
value. -/
inductive Runs (body : FrameId → Eval Value) : Nat → Value → Store → EStateM.Result Stop Store Value → Prop
  | done {last : Value} {s : Store} : Runs body c.rounds last s (.ok last s)
  | round {k : Nat} {last v : Value} {s t u : Store} {r : EStateM.Result Stop Store Value} : k < c.rounds →
      c.Starts k s t → body c.frame t = .ok v u → Runs body (k + 1) v u r → Runs body k last s r
  | stopped {k : Nat} {last : Value} {s t u : Store} {stop : Stop} : k < c.rounds →
      c.Starts k s t → body c.frame t = .error stop u → Runs body k last s (.error stop u)

/-! ## Numbers -/

variable {c}

theorem number_zero : c.number 0 = c.start.toInt := by
  unfold number
  split <;> simp

/-- The numbers do not go beyond the bounds. -/
theorem number_bounds {k : Nat} (hk : k ≤ c.rounds) :
    min c.start.toInt c.stop.toInt ≤ c.number k ∧ c.number k ≤ max c.start.toInt c.stop.toInt := by
  unfold rounds at hk
  unfold number
  split
  · next hup =>
    have hlt := Int64.lt_iff_toInt_lt.1 hup
    omega
  · next hdown =>
    have hle := mt Int64.lt_iff_toInt_lt.2 hdown
    omega

/-- The step from one number to the next. -/
def delta (c : Counting) : Int64 := if c.start < c.stop then 1 else -1

/-- The next number is between the bounds as well, so nothing overflows. -/
theorem toInt_add_delta {k : Nat} {n : Int64} (hn : n.toInt = c.number k) (hk : k < c.rounds) :
    (n + c.delta).toInt = c.number (k + 1) := by
  have hnext : n.toInt + c.delta.toInt = c.number (k + 1) := by
    rw [hn, delta, number, number]
    split
    · rw [Int64.toInt_one]
      omega
    · have hminus : (-1 : Int64).toInt = -1 := rfl
      rw [hminus]
      omega
  have hbounds := c.number_bounds (k := k + 1) hk
  have hstart := c.start.le_toInt
  have hstop := c.stop.le_toInt
  have hstart' := c.start.toInt_lt
  have hstop' := c.stop.toInt_lt
  rw [Int64.toInt_add, hnext]
  exact Int.bmod_eq_of_le (by omega) (by omega)

/-! ## Rounds -/

variable {s t : Store} {k : Nat} {n : Int64}

theorem opens (c : Counting) (hframe : c.frame = (s.newChild c.around).1) :
    c.Opens s ((s.newChild c.around).2.set c.frame c.x .null) := by
  have hnew : (s.newChild c.around).2.HasFrame c.frame := hframe ▸ Store.hasFrame_newFrame_self
  have hbefore : ¬s.HasFrame c.frame := hframe ▸ Nat.lt_irrefl _
  refine ⟨hbefore, ?_, ?_, fun {F} hF => ?_, rfl, rfl, rfl⟩
  · rw [Store.parent?_set, hframe]
    exact Store.parent?_newFrame_self
  · have hnone : (s.newChild c.around).2.bindings c.frame = [] := hframe ▸ Store.bindings_newFrame_self
    rw [Store.bindings_set_self hnew, hnone]
    rfl
  · have hne : c.frame ≠ F := fun h => hbefore (h ▸ hF)
    rw [Store.parent?_set, Store.bindings_set_of_ne hne]
    exact ⟨Store.parent?_newFrame hF, Store.bindings_newFrame hF⟩

/-- A round starts by making an integer and binding the variable to it. -/
theorem starts (hframe : s.HasFrame c.frame) (hinside : s.parent? c.frame = some c.around) (hn : n.toInt = c.number k) :
    c.Starts k s ((s.alloc (.integer n)).2.set c.frame c.x (s.alloc (.integer n)).1) where
  inside := Store.parent?_set.trans hinside
  counter :=
    ⟨(s.alloc (.integer n)).1, n, Nat.lt_irrefl _, Store.localValue?_set_self hframe, Store.datum_alloc_self, hn⟩
  other := Store.localValue?_set_of_ne
  parent _ := Store.parent?_set
  values := Store.datum_alloc
  printed := rfl
  requests := rfl

/-- The rounds that are left, from one that is about to start with its number. -/
theorem runs_countRounds (library : Library) (depth : Nat) (body : List Stmt) (j : Nat) {last : Value}
    (hj : k + j = c.rounds) (hframe : s.HasFrame c.frame) (hinside : s.parent? c.frame = some c.around)
    (hn : n.toInt = c.number k) :
    c.Runs (Eval.block (Eval.expr library depth) body) k last s
      (Eval.countRounds (Eval.expr library depth) c.x body c.frame c.delta j n last s) := by
  induction j generalizing k n last s with
  | zero =>
    obtain rfl : k = c.rounds := hj
    exact .done
  | succ j ih =>
    have hk : k < c.rounds := by omega
    let t := (s.alloc (.integer n)).2.set c.frame c.x (s.alloc (.integer n)).1
    have hstarts : c.Starts k s t := starts hframe hinside hn
    have hopen : t.HasFrame c.frame := Store.hasFrame_set.2 hframe
    have hround : Eval.countRounds (Eval.expr library depth) c.x body c.frame c.delta (j + 1) n last s =
        (Eval.block (Eval.expr library depth) body c.frame >>= fun v =>
          Eval.countRounds (Eval.expr library depth) c.x body c.frame c.delta j (n + c.delta) v) t := rfl
    rw [hround]
    cases hbody : Eval.block (Eval.expr library depth) body c.frame t with
    | ok v u =>
      rw [Eval.bind_of_ok hbody]
      -- whatever the body did, the frame of the loop is where it was
      have hbecomes := Eval.block_becomes t library depth body c.frame
      rw [Outcome.of, hbody] at hbecomes
      have hinside' : u.parent? c.frame = some c.around := (hbecomes.parent hopen).trans hstarts.inside
      exact .round hk hstarts hbody (ih (by omega) (hbecomes.hasFrame hopen) hinside' (toInt_add_delta hn hk))
    | error stop u =>
      rw [Eval.bind_of_error hbody]
      exact .stopped hk hstarts hbody

end Counting

/-! ## Loops -/

namespace Eval

variable {s s₁ s₂ : Store} {E : FrameId} {e : Expr} {v : Value} {a b : Int64}

theorem loopBound_of_integer {rec : Expr → FrameId → Eval Value} (he : rec e E s = .ok v s₁)
    (hv : s₁.datum v = .object (.integer a)) (bound : LoopBound) : loopBound rec bound e E s = .ok a s₁ := by
  unfold loopBound
  rw [bind_of_ok he, datum_bind, hv]
  rfl

/-- **Counting loops.** A loop whose bounds are the integers `a` and `b` opens one frame, and runs in it the rounds that
belong to these numbers, one after the other, each with an integer of its own; its value is that of the last round, and
`null` without any. A round that returns or fails is the last one, and the loop ends as it does. -/
theorem counting_runs {library : Library} {n : Nat} {start stop : Expr} {va vb : Value}
    (hstart : expr library n start E s = .ok va s₁) (ha : s₁.datum va = .object (.integer a))
    (hstop : expr library n stop E s₁ = .ok vb s₂) (hb : s₂.datum vb = .object (.integer b)) (x : String)
    (body : List Stmt) :
    ∃ L t, Counting.Opens ⟨E, L, x, a, b⟩ s₂ t ∧
      Counting.Runs ⟨E, L, x, a, b⟩ (block (expr library n) body) 0 .null t
        (expr library (n + 1) (.rangeFor x start stop body) E s) := by
  let c : Counting := ⟨E, (s₂.newChild E).1, x, a, b⟩
  let t := (s₂.newChild E).2.set c.frame x .null
  have hopens : c.Opens s₂ t := c.opens rfl
  have hframe : t.HasFrame c.frame := Store.hasFrame_set.2 Store.hasFrame_newFrame_self
  have hbounds : expr library (n + 1) (.rangeFor x start stop body) E s =
      (loopFrame x E >>= fun L => countRounds (expr library n) x body L c.delta c.rounds a .null) s₂ :=
    (bind_of_ok (loopBound_of_integer hstart ha .start)).trans (bind_of_ok (loopBound_of_integer hstop hb .stop))
  have hfirst : c.start.toInt = c.number 0 := Counting.number_zero.symm
  refine ⟨c.frame, t, hopens, ?_⟩
  rw [hbounds]
  exact c.runs_countRounds library n body c.rounds (Nat.zero_add _) hframe hopens.inside hfirst

/-- The store after `var b = 9223372036854775807; var n = 0;`. -/
def bounded : Store :=
  (Outcome.of (program (expr (Library.ofUnits []) 2) [.var "b" (.integer Int64.maxValue), .var "n" (.integer 0)]
    Session.start.frame) Session.start.store).2

/-- The body `n = n + 1; i++; var i = b; b = 0;`. -/
def meddlingBody : List Stmt :=
  [.expr (.binary .assign (.name "n") (.binary .add (.name "n") (.integer 1))), .expr (.increment "i"),
    .var "i" (.name "b"), .expr (.binary .assign (.name "b") (.integer 0))]

/-- A loop up to the greatest integer has its three rounds, although the first changes its variable and the bound. -/
theorem bounded_runs :
    expr (Library.ofUnits []) 4 (.name "b") Session.start.frame (bounded.alloc (.integer (Int64.maxValue - 3))).2 =
        .ok (.ref ⟨0⟩) (bounded.alloc (.integer (Int64.maxValue - 3))).2 ∧
      (∃ L t, Counting.Opens ⟨Session.start.frame, L, "i", Int64.maxValue - 3, Int64.maxValue⟩
          (bounded.alloc (.integer (Int64.maxValue - 3))).2 t ∧
        Counting.Runs ⟨Session.start.frame, L, "i", Int64.maxValue - 3, Int64.maxValue⟩
          (block (expr (Library.ofUnits []) 4) meddlingBody) 0 .null t
          (expr (Library.ofUnits []) 5
            (.rangeFor "i" (.integer (Int64.maxValue - 3)) (.name "b") meddlingBody) Session.start.frame bounded)) ∧
      let t := (Outcome.of (expr (Library.ofUnits []) 5
        (.rangeFor "i" (.integer (Int64.maxValue - 3)) (.name "b") meddlingBody) Session.start.frame) bounded).2
      (t.get? Session.start.frame "n").map t.describe = some "INTEGER(3)" := by
  have hget : (bounded.alloc (.integer (Int64.maxValue - 3))).2.get? Session.start.frame "b" = some (.ref ⟨0⟩) := by
    decide +kernel
  have hstop : expr (Library.ofUnits []) 4 (.name "b") Session.start.frame
      (bounded.alloc (.integer (Int64.maxValue - 3))).2 =
        .ok (.ref ⟨0⟩) (bounded.alloc (.integer (Int64.maxValue - 3))).2 := by
    show readName "b" Session.start.frame _ = _
    unfold readName
    rw [get_bind, hget]
    rfl
  exact ⟨hstop, counting_runs rfl Store.datum_alloc_self hstop rfl "i" meddlingBody, by decide +kernel⟩

end Eval

end Pron
