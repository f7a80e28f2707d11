import Pron.Session

/-!
# Reachable states

`Reachable` holds of the states of sessions: those between programs, and those in the middle of one. A program is looked
at in the middle by stopping it (`Eval.exprUntil`): every expression may be the one at which the evaluation stops, and
the state is the one in which it would have been evaluated. Where to stop may depend on the keys in hand, those of the
hash literals that are being evaluated and are not yet entered in a hash.

The states of runs that never come to evaluate certain expressions are those of runs that stop, at the latest, there
(`ReachableAvoiding`).
-/

namespace Pron

namespace Eval

/-- Enters the pairs of a hash literal as `hashPairs` does; what is evaluated meanwhile is told the keys in hand. -/
def hashPairsWith (rec : List Value → Expr → FrameId → Eval Value) (keys : List Value) :
    List KeyValue → List HashEntry → FrameId → Eval Value
  | [], entries, _ => alloc (.hash entries)
  | p :: rest, entries, E => do
    let key ← rec (entries.map HashEntry.key ++ keys) p.key E
    let d ← datum key
    match d.keyContent? with
    | none => fail (.unusableKey d.type)
    | some content =>
      let value ← rec (key :: entries.map HashEntry.key ++ keys) p.value E
      hashPairsWith rec keys rest (Entries.insert ⟨content, key, value⟩ entries) E

/-- Where the keys in hand do not matter, the pairs of a hash are evaluated as usual. -/
theorem hashPairsWith_const (rec : Expr → FrameId → Eval Value) (keys : List Value) (pairs : List KeyValue)
    (entries : List HashEntry) (E : FrameId) :
    hashPairsWith (fun _ => rec) keys pairs entries E = hashPairs rec pairs entries E := by
  induction pairs generalizing entries E with
  | nil => rfl
  | cons p rest ih =>
    have hrest : hashPairsWith (fun _ => rec) keys rest = hashPairs rec rest :=
      funext fun entries => funext (ih entries)
    unfold hashPairsWith hashPairs
    rewrite [hrest]
    rfl

section Until

variable (library : Library) (stop : List Value → Expr → FrameId → Store → Bool)

/-- Evaluates an expression as `expr` does, but goes no further than to the first expression at which it is to stop. -/
def exprUntil : Nat → List Value → Expr → FrameId → Eval Value
  | 0, _, _, _ => throw .tooDeep
  | n + 1, keys, e, E => fun s =>
    if stop keys e E s then .error .tooDeep s
    else
      match e with
      | .hash pairs => hashPairsWith (exprUntil n) keys pairs [] E s
      | e => node library (exprUntil n keys) e E s

section Cases

variable {library stop} {n : Nat} {keys : List Value} {e : Expr} {E : FrameId} {s : Store}

/-- The evaluation stops before the expression, in the store in which it would have been evaluated. -/
theorem exprUntil_stopped (h : stop keys e E s = true) :
    exprUntil library stop (n + 1) keys e E s = .error .tooDeep s := by simp [exprUntil, h]

/-- In a hash literal the keys that were evaluated are in hand until they are entered. -/
theorem exprUntil_hash {pairs : List KeyValue} (h : stop keys (.hash pairs) E s = false) :
    exprUntil library stop (n + 1) keys (.hash pairs) E s =
      hashPairsWith (exprUntil library stop n) keys pairs [] E s := by simp [exprUntil, h]

/-- All other expressions are evaluated with the same keys in hand. -/
theorem exprUntil_node (h : stop keys e E s = false) (hhash : ∀ pairs, e ≠ .hash pairs) :
    exprUntil library stop (n + 1) keys e E s = node library (exprUntil library stop n keys) e E s := by
  cases e with
  | hash pairs => exact (hhash pairs rfl).elim
  | _ => simp [exprUntil, h]

end Cases

/-- Without a place to stop, evaluations are what they are. -/
theorem exprUntil_never (n : Nat) (keys : List Value) :
    exprUntil library (fun _ _ _ _ => false) n keys = expr library n := by
  induction n generalizing keys with
  | zero => rfl
  | succ n ih =>
    have hrec : exprUntil library (fun _ _ _ _ => false) n = fun _ => expr library n := funext ih
    funext e E s
    unfold exprUntil expr
    rw [hrec]
    cases e with
    | hash pairs => exact congrFun (hashPairsWith_const (expr library n) keys pairs [] E) s
    | _ => rfl

end Until

end Eval

/-- The states that programs of a session reach before they would evaluate what is to be avoided. -/
inductive ReachableAvoiding (avoid : List Value → Expr → FrameId → Store → Bool) : Store → Prop
  | start : ReachableAvoiding avoid Session.start.store
  | run {s : Store} (library : Library) (stop : List Value → Expr → FrameId → Store → Bool)
      (havoid : ∀ keys e E s, avoid keys e E s = true → stop keys e E s = true) (n : Nat) (p : Program) :
      ReachableAvoiding avoid s → ReachableAvoiding avoid
        (Outcome.of (Eval.program (Eval.exprUntil library stop n []) p Session.start.frame) s).2

/-- The states that programs of a session reach. -/
abbrev Reachable : Store → Prop := ReachableAvoiding fun _ _ _ _ => false

/-- A state that is reached without certain expressions is reached. -/
theorem ReachableAvoiding.reachable {avoid : List Value → Expr → FrameId → Store → Bool} {s : Store}
    (h : ReachableAvoiding avoid s) : Reachable s := by
  induction h with
  | start => exact .start
  | run library stop _ n p _ ih => exact .run library stop (fun _ _ _ _ h => by cases h) n p ih

namespace Reachable

/-- The state after a program is reached from the one before it. -/
theorem program {s : Store} (h : Reachable s) (library : Library) (n : Nat) (p : Program) :
    Reachable (Outcome.of (Eval.program (Eval.expr library n) p Session.start.frame) s).2 :=
  Eval.exprUntil_never library n [] ▸ h.run library (fun _ _ _ _ => false) (fun _ _ _ _ h => h) n p

/-- A program that is run in a session leaves it in a reachable state. -/
theorem session {session : Session} (h : Reachable session.store) (hframe : session.frame = Session.start.frame)
    (library : Library) (p : Program) : Reachable (session.run library p).2.store := by
  have hrun := h.program library Session.depth p
  rw [← hframe] at hrun
  exact hrun

end Reachable

end Pron
