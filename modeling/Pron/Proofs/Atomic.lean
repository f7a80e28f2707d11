import Pron.Proofs.Growth

/-!
# Built-in functions do one thing or nothing

A built-in function checks its arguments before it does anything. So it fails and leaves the store as it was, or it does
one thing (`Builtin.Does`): it gives a value that is there, adds an object, prints, or takes an entry out of a hash. The
last is the `remove` of a hash, and the only one that changes an object (`Builtin.call_atomic`).
-/

namespace Pron

/-- An action that fails and changes nothing, or that gives a value and does something to the store. -/
def Atomic (s : Store) (x : Eval Value) (P : Value → Store → Prop) : Prop :=
  (∃ e, x s = .error (.failed e) s) ∨ ∃ v t, x s = .ok v t ∧ P v t

/-- A value that is there stays what it is. -/
def Store.Leaves (s t : Store) (u : Value) : Prop := t.HasValue u ∧ t.datum u = s.datum u

namespace Atomic

variable {s t : Store} {x : Eval Value} {P : Value → Store → Prop} {u v : Value}

/-- What is given is given with what is said of it. -/
theorem of_ok (h : Atomic s x P) (hx : x s = .ok v t) : P v t := by
  rcases h with ⟨e, hfail⟩ | ⟨v', t', hok, hP⟩
  · rw [hfail] at hx
    cases hx
  · rw [hok] at hx
    cases hx
    exact hP

/-- After a failure the store is what it was. -/
theorem of_error {stop : Stop} (h : Atomic s x P) (hx : x s = .error stop t) : t = s ∧ ∃ e, stop = .failed e := by
  rcases h with ⟨e, hfail⟩ | ⟨v', t', hok, -⟩
  · rw [hfail] at hx
    cases hx
    exact ⟨rfl, e, rfl⟩
  · rw [hok] at hx
    cases hx

/-- A value is left alone if the one thing that is done leaves it alone. -/
theorem leaves (h : Atomic s x P)
    (hu : s.HasValue u) (hP : ∀ v t, P v t → s.Leaves t u) : s.Leaves (Outcome.of x s).2 u := by
  rcases h with ⟨e, hx⟩ | ⟨v, t, hx, ht⟩
  · rw [Outcome.of, hx]
    exact ⟨hu, rfl⟩
  · rw [Outcome.of, hx]
    exact hP v t ht

end Atomic

namespace Builtin

open Eval

/-- What a call can do. -/
inductive Does (s : Store) : Builtin → List Value → Value → Store → Prop
  | give {b : Builtin} {arguments : List Value} (v : Value) : Does s b arguments v s
  | make {b : Builtin} {arguments : List Value} (o : Object) : Does s b arguments (s.alloc o).1 (s.alloc o).2
  | print (arguments : List Value) : Does s .print arguments .null
      (s.print (String.join (arguments.map fun v => s.display v ++ "\n")))
  | remove {id : ObjectId} {entries : List HashEntry} {key : Value} {c : HashKey} :
      s.datum (.ref id) = .object (.hash entries) → (s.datum key).keyContent? = some c →
      (Entries.find? c entries).isSome →
      Does s .remove [.ref id, key] (.ref id) (s.write id (.hash (Entries.erase c entries)))

variable {s : Store} {b : Builtin} {arguments : List Value} {P : Value → Store → Prop}

/-- A length is a new number. -/
theorem lenOf_atomic (v : Value) : Atomic s (lenOf v) (Does s b arguments) := by
  unfold lenOf Atomic
  rw [datum_bind]
  cases s.datum v with
  | null | boolean => exact .inl ⟨_, rfl⟩
  | object o =>
    cases o with
    | array | hash | text => exact .inr ⟨_, _, rfl, .make _⟩
    | _ => exact .inl ⟨_, rfl⟩

/-- What is done with the elements of an array is done with an array only. -/
theorem elementsOf_atomic {f : List Value → Eval Value} (hf : ∀ elements, Atomic s (f elements) P) (b : Builtin)
    (v : Value) : Atomic s (elementsOf b v >>= f) P := by
  have helements : elementsOf b v s = .error (.failed (.arrayWanted b (s.datum v).type)) s ∨
      ∃ elements, elementsOf b v s = .ok elements s := by
    unfold elementsOf
    rw [datum_bind]
    cases s.datum v with
    | null | boolean => exact .inl rfl
    | object o =>
      cases o with
      | array elements => exact .inr ⟨elements, rfl⟩
      | _ => exact .inl rfl
  rcases helements with hfail | ⟨elements, helements⟩
  · exact .inl ⟨_, bind_of_error hfail⟩
  · unfold Atomic
    rw [bind_of_ok helements]
    exact hf elements

/-- The rest of an array is a new array, or `null`. -/
theorem restOf_atomic (elements : List Value) : Atomic s (restOf elements) (Does s b arguments) := by
  cases elements with
  | nil => exact .inr ⟨_, _, rfl, .give _⟩
  | cons _ tail => exact .inr ⟨_, _, rfl, .make _⟩

/-- Each way to add makes one new object. -/
theorem addTo_atomic (target : Value) (more : List Value) : Atomic s (addTo target more) (Does s b arguments) := by
  unfold addTo Atomic
  rw [datum_bind]
  cases s.datum target with
  | null | boolean => exact .inl ⟨_, rfl⟩
  | object o =>
    cases o with
    | array elements =>
      rcases more with - | ⟨v, - | ⟨w, more⟩⟩
      · exact .inl ⟨_, rfl⟩
      · exact .inr ⟨_, _, rfl, .make _⟩
      · exact .inl ⟨_, rfl⟩
    | hash entries =>
      rcases more with - | ⟨k, - | ⟨v, - | ⟨w, more⟩⟩⟩
      · exact .inl ⟨_, rfl⟩
      · exact .inl ⟨_, rfl⟩
      · dsimp only
        rw [datum_bind]
        cases (s.datum k).keyContent? with
        | none => exact .inl ⟨_, rfl⟩
        | some c => exact .inr ⟨_, _, rfl, .make _⟩
      · exact .inl ⟨_, rfl⟩
    | _ => exact .inl ⟨_, rfl⟩

/-- An array without an element is new; a hash loses an entry. -/
theorem removeFrom_atomic (target key : Value) : Atomic s (removeFrom target key) (Does s .remove [target, key]) := by
  rcases removeFrom_cases target key s with
    herror | ⟨elements, n, -, -, hremove⟩ | ⟨id, entries, c, rfl, hd, hc, hfound, hremove⟩
  · exact .inl herror
  · exact .inr ⟨_, _, hremove, .make _⟩
  · exact .inr ⟨_, _, hremove, .remove hd hc hfound⟩

/-- The first element is there already; so is the last one. -/
theorem first_atomic (v : Value) :
    Atomic s (elementsOf .first v >>= fun elements => pure (elements.head?.getD .null)) (Does s .first arguments) :=
  elementsOf_atomic (fun _ => .inr ⟨_, _, rfl, .give _⟩) _ v

theorem last_atomic (v : Value) :
    Atomic s (elementsOf .last v >>= fun elements => pure (elements.getLast?.getD .null)) (Does s .last arguments) :=
  elementsOf_atomic (fun _ => .inr ⟨_, _, rfl, .give _⟩) _ v

/-- **Atomicity.** A call of a built-in function fails without having changed anything, or does one thing. -/
theorem call_atomic (b : Builtin) (arguments : List Value) (s : Store) :
    Atomic s (b.call arguments) (Does s b arguments) := by
  have hfail (e : RuntimeError) : Atomic s (fail e) (Does s b arguments) := .inl ⟨e, rfl⟩
  cases b with
  | len =>
    rcases arguments with - | ⟨v, - | ⟨w, more⟩⟩
    · exact hfail _
    · exact lenOf_atomic v
    · exact hfail _
  | first =>
    rcases arguments with - | ⟨v, - | ⟨w, more⟩⟩
    · exact hfail _
    · exact first_atomic v
    · exact hfail _
  | last =>
    rcases arguments with - | ⟨v, - | ⟨w, more⟩⟩
    · exact hfail _
    · exact last_atomic v
    · exact hfail _
  | rest =>
    rcases arguments with - | ⟨v, - | ⟨w, more⟩⟩
    · exact hfail _
    · exact elementsOf_atomic restOf_atomic _ v
    · exact hfail _
  | add =>
    cases arguments with
    | nil => exact hfail _
    | cons target more => exact addTo_atomic target more
  | remove =>
    rcases arguments with - | ⟨target, - | ⟨key, - | ⟨w, more⟩⟩⟩
    · exact hfail _
    · exact hfail _
    · exact removeFrom_atomic target key
    · exact hfail _
  | print => exact .inr ⟨_, _, rfl, .print _⟩

/-- Of what is there, a built-in function changes at most the hash that something is removed from. -/
theorem Does.leaves {t : Store} {u v : Value} (h : Does s b arguments v t) (hu : s.HasValue u) :
    s.Leaves t u ∨ ∃ k entries, b = .remove ∧ arguments = [u, k] ∧ s.datum u = .object (.hash entries) := by
  cases h with
  | give => exact .inl ⟨hu, rfl⟩
  | make o => exact .inl ⟨Store.hasValue_alloc hu, Store.datum_alloc hu⟩
  | print => exact .inl ⟨hu, rfl⟩
  | @remove id entries key c hd _ _ =>
    by_cases hid : u = .ref id
    · exact .inr ⟨key, entries, rfl, by rw [hid], hid ▸ hd⟩
    · exact .inl ⟨Store.hasValue_write.2 hu, Store.datum_write_of_ne hid⟩

end Builtin

end Pron
