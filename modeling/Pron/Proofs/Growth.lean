import Pron.Proofs.Invariant

/-!
# What becomes of a store

Evaluations only ever add to a store (`Store.Becomes`). A frame stays inside the same frame, and what it binds stays
bound. Of the objects that are there only integers and hashes change: an integer gets another number, a hash loses
entries, and the entries that are left are what they were. All else that a program can do, it does to new objects and
frames.
-/

namespace Pron

/-! ## Objects -/

/-- What can become of an object. -/
inductive Object.Becomes : Object → Object → Prop
  | same (o : Object) : Becomes o o
  | integer (m n : Int64) : Becomes (.integer m) (.integer n)
  | hash {entries rest : List HashEntry} : rest.Sublist entries → Becomes (.hash entries) (.hash rest)

namespace Object.Becomes

variable {o p q : Object}

/-- What becomes of an object later comes of the object itself. -/
theorem trans (h : o.Becomes p) (h' : p.Becomes q) : o.Becomes q := by
  cases h with
  | same => exact h'
  | integer m n =>
    cases h' with
    | same => exact .integer m n
    | integer _ k => exact .integer m k
  | hash hrest =>
    cases h' with
    | same => exact .hash hrest
    | hash hrest' => exact .hash (hrest'.trans hrest)

/-- An object keeps its type. -/
theorem type_eq (h : o.Becomes p) : p.type = o.type := by cases h <;> rfl

end Object.Becomes

/-! ## Stores -/

/-- What can become of a store: frames, names and objects are added, and nothing is lost but entries of hashes. -/
structure Store.Becomes (s t : Store) : Prop where
  hasFrame {E : FrameId} : s.HasFrame E → t.HasFrame E
  parent {E : FrameId} : s.HasFrame E → t.parent? E = s.parent? E
  bound {E : FrameId} {x : String} : (s.localValue? E x).isSome → (t.localValue? E x).isSome
  object {v : Value} {o : Object} : s.datum v = .object o → ∃ p, t.datum v = .object p ∧ o.Becomes p

namespace Store.Becomes

variable {s t u : Store} {E : FrameId} {x : String} {v : Value} {id : ObjectId} {o p : Object}

theorem refl (s : Store) : s.Becomes s := ⟨id, fun _ => rfl, id, fun {_ o} ho => ⟨o, ho, .same o⟩⟩

/-- What becomes of a store later comes of the store itself. -/
theorem trans (h : s.Becomes t) (h' : t.Becomes u) : s.Becomes u where
  hasFrame hE := h'.hasFrame (h.hasFrame hE)
  parent hE := (h'.parent (h.hasFrame hE)).trans (h.parent hE)
  bound hx := h'.bound (h.bound hx)
  object ho := by
    obtain ⟨p, hp, hop⟩ := h.object ho
    obtain ⟨q, hq, hpq⟩ := h'.object hp
    exact ⟨q, hq, hop.trans hpq⟩

/-- A new object changes nothing that is there. -/
theorem alloc (s : Store) (o : Object) : s.Becomes (s.alloc o).2 where
  hasFrame hE := hE
  parent _ := rfl
  bound hx := hx
  object ho := ⟨_, (datum_alloc (hasValue_of_datum ho)).trans ho, .same _⟩

/-- A new frame changes nothing that is there. -/
theorem newFrame (s : Store) (f : Frame) : s.Becomes (s.newFrame f).2 where
  hasFrame := hasFrame_newFrame
  parent := parent?_newFrame
  bound {E x} hx := by
    have hE : s.HasFrame E := by
      by_contra hE
      rw [localValue?_eq, bindings_of_not_hasFrame hE] at hx
      cases hx
    rwa [localValue?_eq, bindings_newFrame hE, ← localValue?_eq]
  object ho := ⟨_, ho, .same _⟩

/-- A name that is bound stays bound when one is bound, be it the same or another. -/
theorem isSome_lookup_insert {y : String} {bs : Bindings} (h : (bs.lookup y).isSome) (x : String) (v : Value) :
    ((Bindings.insert x v bs).lookup y).isSome := by
  by_cases hy : y = x
  · subst hy
    rw [Bindings.lookup_insert_self]
    rfl
  · rwa [Bindings.lookup_insert_of_ne hy]

/-- A name that is bound stays bound when it or another one is. -/
theorem set (s : Store) (E : FrameId) (x : String) (v : Value) : s.Becomes (s.set E x v) where
  hasFrame := hasFrame_set.2
  parent _ := parent?_set
  bound {F y} hy := by
    rw [localValue?_eq] at hy ⊢
    by_cases hEF : E = F
    · subst hEF
      by_cases hE : s.HasFrame E
      · rw [bindings_set_self hE]
        exact isSome_lookup_insert hy x v
      · rw [bindings_of_not_hasFrame hE] at hy
        cases hy
    · rwa [bindings_set_of_ne hEF]
  object ho := ⟨_, ho, .same _⟩

/-- An object may be written over with what can become of it. -/
theorem write (ho : s.datum (.ref id) = .object o) (hop : o.Becomes p) : s.Becomes (s.write id p) where
  hasFrame hE := hE
  parent _ := rfl
  bound hx := hx
  object {v q} hq := by
    by_cases hv : v = .ref id
    · subst hv
      rw [ho] at hq
      cases hq
      exact ⟨p, datum_write_self (hasValue_of_datum ho), hop⟩
    · exact ⟨q, (datum_write_of_ne hv).trans hq, .same q⟩

/-- An entry may be taken out of a hash. -/
theorem erase {entries : List HashEntry} (h : s.datum (.ref id) = .object (.hash entries)) (content : HashKey) :
    s.Becomes (s.write id (.hash (Entries.erase content entries))) := write h (.hash List.filter_sublist)

theorem withLogs (s : Store) (printed : String) (requests : List String) : s.Becomes (s.withLogs printed requests) :=
  ⟨id, fun _ => rfl, id, fun {_ o} ho => ⟨o, ho, .same o⟩⟩

end Store.Becomes

/-- A store with more objects, and nothing else. -/
def Store.Adds (s t : Store) : Prop := ∃ objects : Array Object, t = { s with objects := s.objects ++ objects }

namespace Store.Adds

variable {s t u : Store} {v : Value}

theorem refl (s : Store) : s.Adds s := ⟨#[], by rw [Array.append_empty]⟩

theorem trans (h : s.Adds t) (h' : t.Adds u) : s.Adds u := by
  obtain ⟨os, rfl⟩ := h
  obtain ⟨os', rfl⟩ := h'
  exact ⟨os ++ os', by rw [Array.append_assoc]⟩

theorem alloc (s : Store) (o : Object) : s.Adds (s.alloc o).2 := ⟨#[o], by rw [Array.append_singleton]; rfl⟩

/-- Values that are there refer to what they did. -/
theorem datum (h : s.Adds t) (hv : s.HasValue v) : t.datum v = s.datum v := by
  obtain ⟨os, rfl⟩ := h
  cases v with
  | null | boolean => rfl
  | ref id =>
    have hlookup : (s.objects ++ os)[id.index]? = s.objects[id.index]? := Array.getElem?_append_left hv
    simp only [Store.datum, hlookup]

/-- Names are bound as before, since no frame is changed. -/
theorem get? (h : s.Adds t) (E : FrameId) (x : String) : t.get? E x = s.get? E x := by
  obtain ⟨os, rfl⟩ := h
  exact get?_congr rfl

end Store.Adds

/-! ## Evaluations -/

/-- Everything may be known. -/
def Guard.all : Guard where
  value _ := True
  frame _ := True
  owner _ := True
  maker _ := True
  filed _ _ := True
  ordered := False

theorem Guard.all_object (o : Pron.Object) : Guard.all.Object o := by
  cases o with
  | array => exact fun _ _ => trivial
  | hash => exact ⟨fun _ _ => ⟨trivial, trivial, trivial⟩, False.elim⟩
  | _ => trivial

namespace Invariant

/-- All stores, and what can become of them. -/
def growth : Invariant where
  Holds _ := True
  Later _ := Store.Becomes
  Quiet := Store.Becomes
  guard _ := .all
  refl _ := .refl
  trans := .trans
  mono _ := ⟨id, id, id, id, id⟩
  quiet_refl := .refl
  quiet_trans := .trans
  fewer _ h := h
  quiet_later _ h := h
  filed_mono _ _ := trivial
  filed_later _ _ _ := trivial
  null _ := trivial
  boolean _ _ := trivial
  owner_frame _ := trivial
  owner_maker _ := trivial
  object _ _ _ := Guard.all_object _
  parent _ _ _ := trivial
  binding _ _ _ := trivial
  filed _ _ _ := trivial
  filed_copy _ _ _ _ := trivial
  alloc _ _ := ⟨trivial, .alloc _ _, trivial⟩
  newFrame _ _ _ _ := ⟨trivial, .newFrame _ _, trivial, fun _ => trivial⟩
  set _ _ _ _ := ⟨trivial, .set _ _ _ _⟩
  erase _ _ _ h := ⟨trivial, .erase h _⟩
  print _ _ := ⟨trivial, .withLogs _ _ _⟩
  request _ _ := ⟨trivial, .withLogs _ _ _⟩

/-- Evaluations of every depth only add to the store. -/
theorem growth_recs (library : Library) (n : Nat) :
    (growth.toSimulation []).Recs (Eval.expr library n) (Eval.expr library n) := by
  have hsteps (keys : List Value) : growth.Steps keys fun _ _ _ => false :=
    steps_of_write fun _ m _ _ _ hn _ => ⟨trivial, .write hn (.integer _ m)⟩
  have hrecs := Invariant.recs hsteps library n []
  rwa [Eval.exprUntil_never] at hrecs

/-- What the simulation of an evaluation by itself says. -/
theorem becomes_of_follows {s : Store} {x : Eval Value}
    (h : Simulation.Follows (S := growth.toSimulation []) s Simulation.values x x) : s.Becomes (Outcome.of x s).2 :=
  (Ends.of_values h trivial).outcome.2

end Invariant

/-- A block only adds to the store, however it ends. -/
theorem Eval.block_becomes (s : Store) (library : Library) (n : Nat) (body : List Stmt) (E : FrameId) :
    s.Becomes (Outcome.of (Eval.block (Eval.expr library n) body E) s).2 :=
  Invariant.becomes_of_follows (.block (Invariant.growth_recs library n) body ⟨rfl, trivial⟩)

/-- **What becomes of a store.** Evaluations of whatever outcome, and calls of built-in functions, add to the store; of
what is there they change the numbers of integers and take entries out of hashes, no more. -/
theorem Eval.store_becomes (s : Store) (library : Library) (n : Nat) (E : FrameId) :
    (∀ e, s.Becomes (Outcome.of (Eval.expr library n e E) s).2) ∧
    (∀ st, s.Becomes (Outcome.of (Eval.stmt (Eval.expr library n) st E) s).2) ∧
    (∀ body, s.Becomes (Outcome.of (Eval.block (Eval.expr library n) body E) s).2) ∧
    ∀ (b : Builtin) arguments, s.Becomes (Outcome.of (b.call arguments) s).2 := by
  have hrecs := Invariant.growth_recs library n
  have hknown (vs : List Value) : List.Forall₂ (((Invariant.growth.toSimulation []).matching s).value) vs vs :=
    List.forall₂_same.2 fun _ _ => ⟨rfl, trivial⟩
  exact ⟨fun e => Invariant.becomes_of_follows (hrecs s e ⟨rfl, trivial⟩),
    fun st => Invariant.becomes_of_follows (.stmt hrecs st ⟨rfl, trivial⟩),
    fun body => Eval.block_becomes s library n body E,
    fun b arguments => Invariant.becomes_of_follows (.call b (hknown arguments))⟩

end Pron
