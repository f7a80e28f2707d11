import Pron.Proofs.Invariant

/-!
# What was printed before

No evaluation looks at what was printed. It does the same in a store to which something else was printed before, and
only adds to it (`Store.after_block`). This is a simulation in which all values and frames correspond to themselves.
-/

namespace Pron

namespace Matching

/-- All values and frames correspond to themselves, and nothing else. -/
def same : Matching where
  value := Eq
  frame := Eq
  owner := Eq
  maker := Eq
  filed _ _ _ := True
  ordered := False

theorem eq_of_forall₂ {α : Type} {as bs : List α} (h : List.Forall₂ Eq as bs) : as = bs := by
  rwa [List.forall₂_eq_eq_eq] at h

/-- Entries correspond to themselves only. -/
theorem same_entry {d e : HashEntry} : same.Entry d e ↔ d = e := by
  constructor
  · rintro ⟨hcontent, -, hkey, hvalue⟩
    obtain ⟨c, k, v⟩ := d
    cases hcontent
    cases hkey
    cases hvalue
    rfl
  · rintro rfl
    exact ⟨rfl, trivial, rfl, rfl⟩

theorem same_entries {ds es : List HashEntry} : same.Entries ds es ↔ ds = es := by
  constructor
  · rintro ⟨hpairs, -⟩
    exact eq_of_forall₂ (hpairs.imp fun _ _ => same_entry.1)
  · rintro rfl
    exact ⟨List.forall₂_same.2 fun d _ => same_entry.2 rfl, nofun⟩

/-- Objects correspond to themselves only. -/
theorem same_object {o p : Pron.Object} : same.Object o p ↔ o = p := by
  constructor
  · intro h
    cases h with
    | integer | real | text | builtin => rfl
    | array h => rw [eq_of_forall₂ h]
    | hash h => rw [same_entries.1 h]
    | function _ _ h | inst _ h | init _ h => rw [h]
  · rintro rfl
    cases o with
    | integer n => exact .integer n
    | real x => exact .real x
    | text t => exact .text t
    | array elements => exact .array (List.forall₂_same.2 fun _ _ => rfl)
    | hash entries => exact .hash (same_entries.2 rfl)
    | function closure => exact .function _ _ rfl
    | builtin b => exact .builtin b
    | inst className E => exact .inst _ rfl
    | init constructor E => exact .init _ rfl

theorem same_datum (d : Pron.Datum) : same.Datum d d := by
  cases d with
  | null => exact .null
  | boolean b => exact .boolean b
  | object o => exact .object (same_object.2 rfl)

theorem same_binding : same.Binding = Eq := by
  funext ⟨x, u⟩ ⟨y, v⟩
  exact propext (Prod.mk.injEq x u y v ▸ Iff.rfl)

end Matching

namespace Store

/-- The store in which a text was printed before all that was printed in a store. -/
def after (text : String) (s : Store) : Store := { s with printed := text ++ s.printed }

variable (text : String) (s : Store)

/-- What was printed does not show in any value. -/
theorem displayUpTo_after (n : Nat) (v : Value) : (s.after text).displayUpTo n v = s.displayUpTo n v := by
  induction n generalizing v with
  | zero => rfl
  | succ n ih =>
    have hrec : (s.after text).displayUpTo n = s.displayUpTo n := funext ih
    unfold displayUpTo
    rw [hrec]
    rfl

/-- A run, and the same run after a text was printed. -/
def afterSimulation : Simulation where
  World := Unit
  Le _ _ := True
  Quiet _ _ := True
  matching _ := .same
  stores _ s t := t = s.after text
  refl _ := trivial
  trans _ _ := trivial
  mono _ := ⟨id, id, id, id, id⟩
  quiet_refl _ := trivial
  quiet_trans _ _ := trivial
  quiet_le _ := trivial
  filed_mono _ := id
  null _ := rfl
  boolean _ _ := rfl
  owner_frame := id
  owner_maker := id
  datum := by
    rintro _ s _ u _ rfl rfl
    exact Matching.same_datum _
  value_eq_iff := by
    rintro _ _ _ _ _ _ _ _ rfl rfl
    exact Iff.rfl
  frame_eq_iff := by
    rintro _ _ _ _ _ _ _ _ rfl rfl
    exact Iff.rfl
  chain := by
    rintro _ s _ E _ rfl rfl
    rw [chain, chain, chainUpTo_congr (show (s.after text).frames = s.frames from rfl)]
    exact List.forall₂_same.2 fun _ _ => rfl
  bindings := by
    rintro _ s _ E _ rfl rfl
    rw [Matching.same_binding]
    exact List.forall₂_same.2 fun _ _ => rfl
  display := by
    rintro _ s _ u _ rfl rfl
    exact (displayUpTo_after text s _ u).symm
  filed _ _ _ := trivial
  copyDepth := by
    rintro _ _ _ u _ rfl rfl
    exact ⟨depthBound u, rfl, rfl⟩
  filed_copy _ _ _ _ := trivial
  alloc := by
    rintro _ s _ o p rfl ho
    rw [Matching.same_object] at ho
    subst ho
    exact ⟨(), trivial, rfl, rfl⟩
  newFrame := by
    rintro _ s _ ⟨P, bs⟩ ⟨Q, cs⟩ rfl _ hparent hbindings
    rw [Matching.same_binding] at hbindings
    cases Matching.eq_of_forall₂ hbindings
    have hparent : P = Q := by
      cases hparent with
      | none => rfl
      | some h => rw [h]
    subst hparent
    exact ⟨(), trivial, rfl, rfl, fun _ => rfl⟩
  set := by
    rintro _ s _ E _ u _ x rfl rfl rfl
    exact ⟨(), trivial, rfl⟩
  erase := by
    rintro _ s _ i j ds es c rfl hij hds hes
    cases hij
    have hds' : (s.after text).datum (.ref i) = .object (.hash ds) := hds
    rw [hds'] at hes
    cases hes
    exact ⟨(), trivial, rfl⟩
  print := by
    rintro _ s _ printed rfl
    refine ⟨(), trivial, ?_⟩
    rw [Store.print, Store.print, after, after]
    exact congrArg (fun p => Store.mk s.objects s.frames p s.requests) String.append_assoc
  request := by
    rintro _ s _ className rfl
    exact ⟨(), trivial, rfl⟩

/-- Steps of integers do not look at what was printed either. -/
theorem afterSimulation_steps : (afterSimulation text).Steps := by
  refine Simulation.steps_of_write ?_
  rintro _ s _ i j n m rfl hij _ _
  cases hij
  exact ⟨(), trivial, rfl⟩

/-- Statements do the same after a text was printed. -/
theorem after_block (library : Library) (n : Nat) (body : List Stmt) (E : FrameId) :
    Eval.block (Eval.expr library n) body E (s.after text) =
      match Eval.block (Eval.expr library n) body E s with
      | .ok v t => .ok v (t.after text)
      | .error e t => .error e (t.after text) := by
  have hrecs := Simulation.expr (afterSimulation_steps text) (fun _ => trivial) library n
  have hstores : (afterSimulation text).stores () s (s.after text) := rfl
  have h := Simulation.Follows.block hrecs body (w := ()) (E := E) rfl hstores
  generalize Eval.block (Eval.expr library n) body E s = a at h
  generalize Eval.block (Eval.expr library n) body E (s.after text) = b at h
  cases a with
  | ok v t =>
    cases b with
    | ok v' t' =>
      obtain ⟨_, -, rfl, rfl⟩ := h
      rfl
    | error => exact h.elim
  | error e t =>
    cases b with
    | ok => exact h.elim
    | error e' t' =>
      obtain ⟨_, -, rfl, hstop⟩ := h
      cases hstop with
      | returned h => rw [h]
      | failed | tooDeep => rfl

end Store

end Pron
