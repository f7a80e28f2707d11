import Pron.Proofs.Reserved.Evaluation
import Pron.Proofs.Store.Scope

/-!
# Computations

Most of what an evaluation does on the way is to make and change data: numbers, texts, truth values, arrays and hashes.
Operators and built-in functions do no more than this, nor do lookups of names, steps of integers and copies of values
(`Eval.Computes`). They bind no names, make no frames, functions and instances, and ask for no units
(`Store.outline`).
-/

namespace Pron

/-! ## Functions and instances -/

/-- Functions and instances. -/
def Object.isPlaced : Object → Bool
  | function _ | inst _ _ => true
  | _ => false

/-- Objects that know no frame are neither functions nor instances. -/
theorem Object.isPlaced_of_frame? {o : Object} (h : o.frame? = none) : o.isPlaced = false := by
  cases o with
  | function | inst => cases h
  | _ => rfl

namespace Store

/-- The function or the instance that a value refers to. -/
def placed? (s : Store) (v : Value) : Option Object :=
  match s.datum v with
  | .object o => if o.isPlaced then some o else none
  | _ => none

/-- What computing leaves as it is: the frames with all that they bind, the units asked for, the functions and the
instances. -/
def outline (s : Store) : Array Frame × List String × (Value → Option Object) := (s.frames, s.requests, s.placed?)

variable {s t : Store} {v : Value} {id : ObjectId} {o p : Object}

theorem placed?_eq_some : s.placed? v = some o ↔ s.datum v = .object o ∧ o.isPlaced := by
  unfold placed?
  cases s.datum v with
  | null | boolean => simp
  | object p => grind

/-- Plain data are not placed. -/
theorem placed?_of_datum (h : s.datum v = .object o) (ho : o.isPlaced = false) : s.placed? v = none := by
  simp [placed?, h, ho]

/-- New plain data leave functions and instances as they are. -/
theorem placed?_alloc (ho : o.isPlaced = false) (v : Value) : (s.alloc o).2.placed? v = s.placed? v := by
  by_cases hv : s.HasValue v
  · unfold placed?
    rw [datum_alloc hv]
  · have hnone : s.placed? v = none := by
      by_contra h
      obtain ⟨p, hp⟩ := Option.ne_none_iff_exists'.1 h
      exact hv (hasValue_of_datum (placed?_eq_some.1 hp).1)
    rw [hnone]
    by_contra h
    obtain ⟨p, hp⟩ := Option.ne_none_iff_exists'.1 h
    obtain ⟨hp, hplaced⟩ := placed?_eq_some.1 hp
    rcases datum_alloc_cases hp with ⟨_, rfl⟩ | hp
    · rw [ho] at hplaced
      cases hplaced
    · exact hv (hasValue_of_datum hp)

/-- Plain data written over plain data leave functions and instances as they are. -/
theorem placed?_write (hp : s.datum (.ref id) = .object p) (hplaced : p.isPlaced = false) (ho : o.isPlaced = false)
    (v : Value) : (s.write id o).placed? v = s.placed? v := by
  by_cases hv : v = .ref id
  · subst hv
    have hd : (s.write id o).datum (.ref id) = .object o := datum_write_self (hasValue_of_datum hp)
    rw [placed?_of_datum hd ho, placed?_of_datum hp hplaced]
  · unfold placed?
    rw [datum_write_of_ne hv]

/-- The outline consists of frames, requests, functions and instances. -/
theorem outline_eq_iff :
    t.outline = s.outline ↔ t.frames = s.frames ∧ t.requests = s.requests ∧ t.placed? = s.placed? := by
  simp [outline]

theorem outline_alloc (ho : o.isPlaced = false) : (s.alloc o).2.outline = s.outline :=
  outline_eq_iff.2 ⟨rfl, rfl, funext (placed?_alloc ho)⟩

theorem outline_write (hp : s.datum (.ref id) = .object p) (hplaced : p.isPlaced = false) (ho : o.isPlaced = false) :
    (s.write id o).outline = s.outline := outline_eq_iff.2 ⟨rfl, rfl, funext (placed?_write hp hplaced ho)⟩

/-- Copies of values are plain data or the values themselves. -/
theorem outline_copyBindings (bs : Bindings) (s : Store) :
    ((bs.mapM fun b => do return (b.1, ← copyValue b.2) : StoreM Bindings) s).2.outline = s.outline :=
  copyBindings_snd (g := outline) (fun _ _ ho => outline_alloc (Object.isPlaced_of_frame? ho)) bs s

end Store

/-! ## Evaluations that compute -/

namespace Eval

variable {α β : Type} {s : Store}

/-- The store in which an evaluation ends. -/
def finalStore : EStateM.Result Stop Store α → Store
  | .ok _ t => t
  | .error _ t => t

/-- An evaluation that only makes and changes data. -/
def Computes (s : Store) (x : Eval α) : Prop := (finalStore (x s)).outline = s.outline

namespace Computes

theorem pure (a : α) : Computes s (Pure.pure a) := rfl

theorem fail (e : RuntimeError) : Computes s (Eval.fail e : Eval α) := rfl

/-- A computation and then one in the store that it leaves. -/
theorem bind {x : Eval α} {f : α → Eval β} (hx : Computes s x) (hf : ∀ a t, x s = .ok a t → Computes t (f a)) :
    Computes s (x >>= f) := by
  unfold Computes at hx ⊢
  cases hr : x s with
  | ok a t =>
    rw [hr] at hx
    rw [bind_of_ok hr]
    exact (hf a t hr).trans hx
  | error stop t =>
    rw [hr] at hx
    rw [bind_of_error hr]
    exact hx

/-- The evaluation may depend on the store. -/
theorem read {f : Store → Eval β} (h : Computes s (f s)) : Computes s (get >>= f) := h

/-- The evaluation may depend on what a value is. -/
theorem datum {v : Value} {f : Datum → Eval β} (h : Computes s (f (s.datum v))) : Computes s (Eval.datum v >>= f) := h

/-- A change that keeps the outline computes. -/
theorem change {f : Store → Store} (h : (f s).outline = s.outline) : Computes s (modify f : Eval Unit) := h

theorem alloc {o : Object} (ho : o.isPlaced = false) : Computes s (Eval.alloc o) := Store.outline_alloc ho

/-- What is done only when a condition is met. -/
theorem require {c : Prop} [Decidable c] {e : RuntimeError} {f : Unit → Eval β} (hf : Computes s (f ())) :
    Computes s (if c then Eval.fail e >>= f else f ()) := by
  split
  · exact rfl
  · exact hf

/-! ## Operators and built-in functions -/

/-- Scalars are given as themselves or as new objects. -/
theorem give {d : Datum} (hd : Scalar d) : Computes s (Eval.give d) := by
  cases d with
  | null | boolean => exact pure _
  | object o =>
    cases o with
    | integer | real | text => exact alloc rfl
    | _ => exact hd.elim

theorem ofExcept (r : Except RuntimeError α) : Computes s (Eval.ofExcept r) := by
  cases r with
  | ok a => exact pure a
  | error e => exact fail e

/-- The result of an operator is a number, a text or a truth value. -/
theorem operator {r : Except RuntimeError Datum} (h : Gives Scalar r) :
    Computes s (Eval.ofExcept r >>= Eval.give) := by
  cases r with
  | ok d => exact give h
  | error e => exact fail e

theorem elementsOf (b : Builtin) (v : Value) : Computes s (Builtin.elementsOf b v) := by
  refine datum ?_
  split
  · exact pure _
  · exact fail _

theorem lenOf (v : Value) : Computes s (Builtin.lenOf v) := by
  refine datum ?_
  split
  · exact alloc rfl
  · exact alloc rfl
  · exact alloc rfl
  · exact fail _

theorem restOf (elements : List Value) : Computes s (Builtin.restOf elements) := by
  cases elements with
  | nil => exact pure _
  | cons v vs => exact alloc rfl

/-- Adding makes a new array or hash. -/
theorem addTo (target : Value) (arguments : List Value) : Computes s (Builtin.addTo target arguments) := by
  refine datum ?_
  split
  · exact alloc rfl
  · exact fail _
  · refine datum ?_
    split
    · exact alloc rfl
    · exact fail _
  · exact fail _
  · exact fail _

theorem removeElement (elements : List Value) (position : Value) :
    Computes s (Builtin.removeElement elements position) := by
  unfold Builtin.removeElement
  refine require (e := .emptyArray) (datum ?_)
  split
  · split
    · exact alloc rfl
    · exact fail _
  · exact fail _

/-- A hash is written over a hash. -/
theorem removeEntry {id : ObjectId} {entries : List HashEntry} (hd : s.datum (.ref id) = .object (.hash entries))
    (key : Value) : Computes s (Builtin.removeEntry id entries key) := by
  unfold Builtin.removeEntry
  refine require (e := .emptyHash) (datum ?_)
  split
  · split
    · exact (change (Store.outline_write hd rfl rfl)).bind fun _ _ _ => pure _
    · exact fail _
  · exact fail _

/-- A new array or the same hash with an entry less. -/
theorem removeFrom (target key : Value) : Computes s (Builtin.removeFrom target key) := by
  refine datum ?_
  split
  · exact removeElement _ key
  · next hd => exact removeEntry hd key
  · exact fail _

/-- All built-in functions compute. -/
theorem call (b : Builtin) (arguments : List Value) : Computes s (b.call arguments) := by
  unfold Builtin.call
  split
  · exact lenOf _
  · exact (elementsOf .first _).bind fun _ _ _ => pure _
  · exact (elementsOf .last _).bind fun _ _ _ => pure _
  · exact (elementsOf .rest _).bind fun elements _ _ => restOf elements
  · exact addTo _ _
  · exact removeFrom _ _
  · exact (change rfl).bind fun _ _ _ => pure _
  all_goals exact fail _

/-! ## Names -/

theorem readName (x : String) (E : FrameId) : Computes s (Eval.readName x E) := by
  refine read ?_
  split
  · exact pure _
  · split
    · exact alloc rfl
    · exact fail _

/-- An integer is written over an integer, and the name is bound to the same object again. -/
theorem step (x : String) (up : Bool) (E : FrameId) : Computes s (Eval.step x up E) := by
  unfold Computes
  rcases step_cases x up E s with ⟨e, hstep⟩ | ⟨id, n, m, -, hn, hstep⟩
  · rw [hstep]
    rfl
  · rw [hstep]
    exact Store.outline_write hn rfl rfl

end Computes

end Eval

end Pron
