import Mathlib.Data.List.Forall2
import Pron.Proofs.Evaluation
import Pron.Proofs.Store.SortedEntries

/-!
# Simulations

A simulation relates two runs of the evaluator. Its worlds say which values and frames of the two runs correspond
(`Matching`), and grow while the runs go on. The fields of `Simulation` are what the evaluator does with a store, one
operation each: reading in corresponding places gives corresponding data, and after corresponding writes the stores
still correspond, perhaps in a later world.

`Follows` says that two actions, run on corresponding stores, end alike: both with corresponding results, or both with
the same stop. It is kept by everything an action is built from, so a simulation is a relation on stores to which every
evaluation can be carried over. With the same store on both sides it is an invariant.
-/

namespace Pron

/-! ## Options and lists that correspond -/

section Options

variable {α β γ δ : Type} {r : α → β → Prop} {q : γ → δ → Prop} {a : Option α} {b : Option β}

/-- Options that correspond are both there or both missing. -/
theorem rel_isSome (h : Option.Rel r a b) : a.isSome = b.isSome := by cases h <;> rfl

/-- Lookups that correspond, one after the other. -/
theorem rel_bind {f : α → Option γ} {g : β → Option δ} (h : Option.Rel r a b)
    (hf : ∀ a b, r a b → Option.Rel q (f a) (g b)) : Option.Rel q (a.bind f) (b.bind g) := by
  cases h with
  | none => exact .none
  | some h => exact hf _ _ h

theorem rel_map {f : α → γ} {g : β → δ} (h : Option.Rel r a b) (hf : ∀ a b, r a b → q (f a) (g b)) :
    Option.Rel q (a.map f) (b.map g) := by
  cases h with
  | none => exact .none
  | some h => exact .some (hf _ _ h)

theorem rel_mono {p : α → β → Prop} (h : Option.Rel r a b) (hp : ∀ a b, r a b → p a b) : Option.Rel p a b := by
  cases h with
  | none => exact .none
  | some h => exact .some (hp _ _ h)

/-- Both are something, or neither is. -/
theorem rel_cases (h : Option.Rel r a b) : a = none ∧ b = none ∨ ∃ x y, a = some x ∧ b = some y ∧ r x y := by
  cases h with
  | none => exact .inl ⟨rfl, rfl⟩
  | some h => exact .inr ⟨_, _, rfl, rfl, h⟩

/-- The last elements of lists that correspond do so. -/
theorem forall₂_getLastD {as : List α} {bs : List β} (h : List.Forall₂ r as bs) {a : α} {b : β} (hab : r a b) :
    r (as.getLastD a) (bs.getLastD b) := by
  induction h generalizing a b with
  | nil => exact hab
  | cons h _ ih =>
    rw [List.getLastD_cons, List.getLastD_cons]
    exact ih h

/-- Functions that agree on what corresponds map corresponding lists to the same one. -/
theorem map_eq_of_forall₂ {f : α → γ} {g : β → γ} {as : List α} {bs : List β} (h : List.Forall₂ r as bs)
    (hfg : ∀ a b, r a b → f a = g b) : as.map f = bs.map g := by
  induction h with
  | nil => rfl
  | cons h _ ih => rw [List.map_cons, List.map_cons, hfg _ _ h, ih]

theorem forall_mem_of_forall₂ {P : α → Prop} {Q : β → Prop} {as : List α} {bs : List β} (h : List.Forall₂ r as bs)
    (hr : ∀ a b, r a b → P a ∧ Q b) : (∀ a ∈ as, P a) ∧ ∀ b ∈ bs, Q b := by
  induction h with
  | nil => simp
  | cons h _ ih => exact ⟨List.forall_mem_cons.2 ⟨(hr _ _ h).1, ih.1⟩, List.forall_mem_cons.2 ⟨(hr _ _ h).2, ih.2⟩⟩

/-- Lists that correspond still do when both are paired with the same list. -/
theorem forall₂_zip (xs : List γ) {as : List α} {bs : List β} (h : List.Forall₂ r as bs) :
    List.Forall₂ (fun p q => p.1 = q.1 ∧ r p.2 q.2) (xs.zip as) (xs.zip bs) := by
  induction h generalizing xs with
  | nil => simp
  | cons h _ ih =>
    cases xs with
    | nil => exact .nil
    | cons x xs => exact .cons ⟨rfl, h⟩ (ih xs)

end Options

/-! ## Matchings -/

/-- Which values and frames of two runs correspond. -/
structure Matching where
  value : Value → Value → Prop
  frame : FrameId → FrameId → Prop
  /-- Frames of classes and of their instances. -/
  owner : FrameId → FrameId → Prop
  /-- Frames in which constructors were made. -/
  maker : FrameId → FrameId → Prop
  /-- Values that were entered as keys with a content. -/
  filed : HashKey → Value → Value → Prop
  /-- Whether the order of entries matters. -/
  ordered : Prop

namespace Matching

variable (M : Matching)

/-- Entries with the same content and corresponding values. -/
structure Entry (d e : HashEntry) : Prop where
  content : d.content = e.content
  filed : M.filed d.content d.key e.key
  key : M.value d.key e.key
  value : M.value d.value e.value

/-- The entries of two hashes. -/
structure Entries (ds es : List HashEntry) : Prop where
  pairwise : List.Forall₂ M.Entry ds es
  sorted : M.ordered → Pron.Entries.Sorted ds

/-- Objects of the same kind and content that refer to corresponding values and frames. -/
inductive Object : Pron.Object → Pron.Object → Prop
  | integer (n : Int64) : Object (.integer n) (.integer n)
  | real (x : Float) : Object (.real x) (.real x)
  | text (t : String) : Object (.text t) (.text t)
  | array {us vs : List Value} : List.Forall₂ M.value us vs → Object (.array us) (.array vs)
  | hash {ds es : List HashEntry} : M.Entries ds es → Object (.hash ds) (.hash es)
  | function (literal : FunctionLit) (isPublic : Bool) {E F : FrameId} : M.frame E F →
      Object (.function ⟨literal, E, isPublic⟩) (.function ⟨literal, F, isPublic⟩)
  | builtin (b : Builtin) : Object (.builtin b) (.builtin b)
  | inst (className : String) {E F : FrameId} : M.owner E F → Object (.inst className E) (.inst className F)
  | init (constructor : Constructor) {E F : FrameId} : M.maker E F →
      Object (.init constructor E) (.init constructor F)

/-- Values that are the same, or refer to corresponding objects. -/
inductive Datum : Pron.Datum → Pron.Datum → Prop
  | null : Datum .null .null
  | boolean (b : Bool) : Datum (.boolean b) (.boolean b)
  | object {o p : Pron.Object} : M.Object o p → Datum (.object o) (.object p)

/-- Stops for the same reason. -/
inductive Stop : Pron.Stop → Pron.Stop → Prop
  | returned {u v : Value} : M.value u v → Stop (.returned u) (.returned v)
  | failed (e : RuntimeError) : Stop (.failed e) (.failed e)
  | tooDeep : Stop .tooDeep .tooDeep

/-- A matching that matches no less; what was entered as a key may have changed. -/
structure Le (M N : Matching) : Prop where
  value {u v : Value} : M.value u v → N.value u v
  frame {E F : FrameId} : M.frame E F → N.frame E F
  owner {E F : FrameId} : M.owner E F → N.owner E F
  maker {E F : FrameId} : M.maker E F → N.maker E F
  ordered : N.ordered → M.ordered

variable {M} {N : Matching}

theorem forall₂_value_mono (h : M.Le N) {us vs : List Value} (hu : List.Forall₂ M.value us vs) :
    List.Forall₂ N.value us vs := hu.imp fun _ _ => h.value

section Mono

variable (h : M.Le N) (hfiled : ∀ {c u v}, M.filed c u v → N.filed c u v)

include h hfiled

theorem Entry.mono {d e : HashEntry} (hd : M.Entry d e) : N.Entry d e :=
  ⟨hd.content, hfiled hd.filed, h.value hd.key, h.value hd.value⟩

theorem Entries.mono {ds es : List HashEntry} (hd : M.Entries ds es) : N.Entries ds es :=
  ⟨hd.pairwise.imp fun _ _ => Entry.mono h hfiled, fun ho => hd.sorted (h.ordered ho)⟩

/-- Objects that correspond stay so when more values do. -/
theorem Object.mono {o p : Pron.Object} (ho : M.Object o p) : N.Object o p := by
  cases ho with
  | integer n => exact .integer n
  | real x => exact .real x
  | text t => exact .text t
  | array hu => exact .array (forall₂_value_mono h hu)
  | hash hd => exact .hash (Entries.mono h hfiled hd)
  | function literal isPublic hE => exact .function literal isPublic (h.frame hE)
  | builtin b => exact .builtin b
  | inst className hE => exact .inst className (h.owner hE)
  | init constructor hE => exact .init constructor (h.maker hE)

/-- Data that correspond stay so when more values do. -/
theorem Datum.mono {d e : Pron.Datum} (hd : M.Datum d e) : N.Datum d e := by
  cases hd with
  | null => exact .null
  | boolean b => exact .boolean b
  | object ho => exact .object (ho.mono h hfiled)

end Mono

/-- Objects that correspond are of the same type. -/
theorem Object.type_eq {o p : Pron.Object} (h : M.Object o p) : o.type = p.type := by cases h <;> rfl

namespace Datum

variable {d e : Pron.Datum}

theorem type_eq (h : M.Datum d e) : d.type = e.type := by
  cases h with
  | null => rfl
  | boolean => rfl
  | object h => exact h.type_eq

/-- Data that correspond count as the same truth value. -/
theorem isTruthy_eq (h : M.Datum d e) : d.isTruthy = e.isTruthy := by cases h <;> rfl

/-- Data that correspond are filed under the same key, if under any. -/
theorem keyContent?_eq (h : M.Datum d e) : d.keyContent? = e.keyContent? := by
  cases h with
  | null => rfl
  | boolean => rfl
  | object h => cases h <;> rfl

theorem asReal?_eq (h : M.Datum d e) : Operator.asReal? d = Operator.asReal? e := by
  cases h with
  | null => rfl
  | boolean => rfl
  | object h => cases h <;> rfl

end Datum

/-! ## Entries that correspond -/

namespace Entries

variable {ds es : List HashEntry}

theorem nil : M.Entries [] [] := ⟨.nil, fun _ => .nil⟩

/-- Corresponding hashes have the same keys. -/
theorem contents_eq (h : M.Entries ds es) : ds.map HashEntry.content = es.map HashEntry.content :=
  map_eq_of_forall₂ h.pairwise fun _ _ hde => hde.content

theorem length_eq (h : M.Entries ds es) : ds.length = es.length := h.pairwise.length_eq

/-- Under the same key there are entries that correspond, or none on both sides. -/
theorem find? (h : M.Entries ds es) (content : HashKey) :
    Option.Rel M.Entry (Pron.Entries.find? content ds) (Pron.Entries.find? content es) := by
  have hp := h.pairwise
  clear h
  unfold Pron.Entries.find?
  induction hp with
  | nil => exact .none
  | @cons d e ds es hd _ ih =>
    rw [List.find?_cons, List.find?_cons, ← hd.content]
    by_cases hc : d.content = content
    · simpa [hc] using Option.Rel.some hd
    · simpa [hc] using ih

/-- Entries that correspond can be added on both sides. -/
theorem insert (h : M.Entries ds es) {d e : HashEntry} (hd : M.Entry d e) :
    M.Entries (Pron.Entries.insert d ds) (Pron.Entries.insert e es) := by
  refine ⟨?_, fun ho => (h.sorted ho).insert d⟩
  have hp := h.pairwise
  clear h
  induction hp with
  | nil => exact .cons hd .nil
  | @cons f g fs gs hf hfs ih =>
    unfold Pron.Entries.insert
    rw [← hd.content, ← hf.content]
    split
    · exact .cons hd hfs
    · split
      · exact .cons hd (.cons hf hfs)
      · exact .cons hf ih

/-- The entries of a key can be removed on both sides. -/
theorem erase (h : M.Entries ds es) (content : HashKey) :
    M.Entries (Pron.Entries.erase content ds) (Pron.Entries.erase content es) := by
  refine ⟨?_, fun ho => (h.sorted ho).erase content⟩
  have hp := h.pairwise
  clear h
  unfold Pron.Entries.erase
  induction hp with
  | nil => exact .nil
  | @cons d e ds es hd _ ih =>
    rw [List.filter_cons, List.filter_cons, ← hd.content]
    split
    · exact .cons hd ih
    · exact ih

end Entries

end Matching

/-! ## Simulations -/

/-- Two names bound to corresponding values. -/
def Matching.Binding (M : Matching) (p q : String × Value) : Prop := p.1 = q.1 ∧ M.value p.2 q.2

/-- A relation between the stores of two runs that the operations of the evaluator keep. -/
structure Simulation where
  /-- What is known at some time of the two runs. -/
  World : Type
  /-- Later worlds. -/
  Le : World → World → Prop
  /-- Later worlds in which the keys that were entered are what they were. -/
  Quiet : World → World → Prop
  matching : World → Matching
  stores : World → Store → Store → Prop
  refl (w : World) : Le w w
  trans {w₁ w₂ w₃ : World} : Le w₁ w₂ → Le w₂ w₃ → Le w₁ w₃
  mono {w w' : World} : Le w w' → (matching w).Le (matching w')
  quiet_refl (w : World) : Quiet w w
  quiet_trans {w₁ w₂ w₃ : World} : Quiet w₁ w₂ → Quiet w₂ w₃ → Quiet w₁ w₃
  quiet_le {w w' : World} : Quiet w w' → Le w w'
  filed_mono {w w' : World} {c : HashKey} {u v : Value} : Quiet w w' → (matching w).filed c u v →
    (matching w').filed c u v
  null (w : World) : (matching w).value .null .null
  boolean (w : World) (b : Bool) : (matching w).value (.boolean b) (.boolean b)
  owner_frame {w : World} {E F : FrameId} : (matching w).owner E F → (matching w).frame E F
  owner_maker {w : World} {E F : FrameId} : (matching w).owner E F → (matching w).maker E F
  -- what is read
  datum {w : World} {s t : Store} {u v : Value} : stores w s t → (matching w).value u v →
    (matching w).Datum (s.datum u) (t.datum v)
  value_eq_iff {w : World} {s t : Store} {u v u' v' : Value} : stores w s t → (matching w).value u v →
    (matching w).value u' v' → (u = u' ↔ v = v')
  frame_eq_iff {w : World} {s t : Store} {E F E' F' : FrameId} : stores w s t → (matching w).frame E F →
    (matching w).frame E' F' → (E = E' ↔ F = F')
  chain {w : World} {s t : Store} {E F : FrameId} : stores w s t → (matching w).frame E F →
    List.Forall₂ (matching w).frame (s.chain E) (t.chain F)
  bindings {w : World} {s t : Store} {E F : FrameId} : stores w s t → (matching w).frame E F →
    List.Forall₂ (matching w).Binding (s.bindings E) (t.bindings F)
  display {w : World} {s t : Store} {u v : Value} : stores w s t → (matching w).value u v →
    s.display u = t.display v
  filed {w : World} {s t : Store} {u v : Value} {c : HashKey} : stores w s t → (matching w).value u v →
    (s.datum u).keyContent? = some c → (matching w).filed c u v
  /-- A depth that does for the copies on both sides. -/
  copyDepth {w : World} {s t : Store} {u v : Value} : stores w s t → (matching w).value u v →
    ∃ n, Store.copyValue u s = Store.copyUpTo n u s ∧ Store.copyValue v t = Store.copyUpTo n v t
  filed_copy {w w' : World} {s t : Store} {u v : Value} {c : HashKey} {n : Nat} : stores w s t →
    (matching w).filed c u v → Quiet w w' → stores w' (Store.copyUpTo n u s).2 (Store.copyUpTo n v t).2 →
    (matching w').filed c (Store.copyUpTo n u s).1 (Store.copyUpTo n v t).1
  -- what is written
  alloc {w : World} {s t : Store} {o p : Object} : stores w s t → (matching w).Object o p →
    ∃ w', Quiet w w' ∧ stores w' (s.alloc o).2 (t.alloc p).2 ∧ (matching w').value (s.alloc o).1 (t.alloc p).1
  newFrame {w : World} {s t : Store} {f g : Frame} : stores w s t → s.Binds f.bindings →
    Option.Rel (matching w).frame f.parent g.parent →
    List.Forall₂ (matching w).Binding f.bindings g.bindings →
    ∃ w', Quiet w w' ∧ stores w' (s.newFrame f).2 (t.newFrame g).2 ∧
      (matching w').frame (s.newFrame f).1 (t.newFrame g).1 ∧
      (f.parent = none → (matching w').owner (s.newFrame f).1 (t.newFrame g).1)
  set {w : World} {s t : Store} {E F : FrameId} {u v : Value} (x : String) : stores w s t →
    (matching w).frame E F → (matching w).value u v →
    ∃ w', Quiet w w' ∧ stores w' (s.set E x u) (t.set F x v)
  erase {w : World} {s t : Store} {i j : ObjectId} {ds es : List HashEntry} (c : HashKey) : stores w s t →
    (matching w).value (.ref i) (.ref j) → s.datum (.ref i) = .object (.hash ds) →
    t.datum (.ref j) = .object (.hash es) →
    ∃ w', Quiet w w' ∧ stores w' (s.write i (.hash (Entries.erase c ds))) (t.write j (.hash (Entries.erase c es)))
  print {w : World} {s t : Store} (text : String) : stores w s t →
    ∃ w', Quiet w w' ∧ stores w' (s.print text) (t.print text)
  request {w : World} {s t : Store} (className : String) : stores w s t →
    ∃ w', Quiet w w' ∧ stores w' (s.request className) (t.request className)

namespace Simulation

variable {S : Simulation} {w w' : S.World} {s t : Store} {E F : FrameId} {u v : Value}

/-- What corresponds stays so while no number is changed. -/
theorem quiet_mono (h : S.Quiet w w') : (S.matching w).Le (S.matching w') := S.mono (S.quiet_le h)

theorem entry_mono (h : S.Quiet w w') {d e : HashEntry} (hd : (S.matching w).Entry d e) :
    (S.matching w').Entry d e := hd.mono (quiet_mono h) (S.filed_mono h)

theorem entries_mono (h : S.Quiet w w') {ds es : List HashEntry} (hd : (S.matching w).Entries ds es) :
    (S.matching w').Entries ds es := hd.mono (quiet_mono h) (S.filed_mono h)

/-! ## Looking names up -/

/-- A frame and the one that corresponds to it bind the same names, to values that correspond. -/
theorem localValue? (hs : S.stores w s t) (hE : (S.matching w).frame E F) (x : String) :
    Option.Rel (S.matching w).value (s.localValue? E x) (t.localValue? F x) := by
  have hb := S.bindings hs hE
  rw [Store.localValue?_eq, Store.localValue?_eq]
  generalize s.bindings E = bs at hb
  generalize t.bindings F = cs at hb
  induction hb with
  | nil => exact .none
  | @cons p q bs cs hpq _ ih =>
    rw [List.lookup_cons, List.lookup_cons, ← hpq.1]
    cases x == p.1 with
    | true => exact .some hpq.2
    | false => exact ih

/-- A name is found in frames that correspond, or in none on both sides. -/
theorem binder? (hs : S.stores w s t) (hE : (S.matching w).frame E F) (x : String) :
    Option.Rel (S.matching w).frame (s.binder? E x) (t.binder? F x) := by
  have hc := S.chain hs hE
  unfold Store.binder?
  generalize s.chain E = Es at hc
  generalize t.chain F = Fs at hc
  induction hc with
  | nil => exact .none
  | @cons G H Es Fs hG _ ih =>
    rw [List.find?_cons, List.find?_cons, ← rel_isSome (localValue? hs hG x)]
    split
    · exact .some hG
    · exact ih

theorem get? (hs : S.stores w s t) (hE : (S.matching w).frame E F) (x : String) :
    Option.Rel (S.matching w).value (s.get? E x) (t.get? F x) :=
  rel_bind (binder? hs hE x) fun _ _ h => localValue? hs h x

/-- Frames that correspond have corresponding roots. -/
theorem root (hs : S.stores w s t) (hE : (S.matching w).frame E F) :
    (S.matching w).frame (s.root E) (t.root F) := forall₂_getLastD (S.chain hs hE) hE

theorem rootValue? (hs : S.stores w s t) (hE : (S.matching w).frame E F) (x : String) :
    Option.Rel (S.matching w).value (s.rootValue? E x) (t.rootValue? F x) := localValue? hs (root hs hE) x

/-- Stores that correspond in some later world. -/
def Later (w : S.World) (s t : Store) : Prop := ∃ w', S.Le w w' ∧ S.stores w' s t

/-- After a name was bound. -/
theorem Later.set (hs : S.stores w s t) (hE : (S.matching w).frame E F) (x : String)
    (hu : (S.matching w).value u v) : Later w (s.set E x u) (t.set F x v) := by
  obtain ⟨w', hw, hs'⟩ := S.set x hs hE hu
  exact ⟨w', S.quiet_le hw, hs'⟩

theorem update? (hs : S.stores w s t) (hE : (S.matching w).frame E F) (x : String)
    (hu : (S.matching w).value u v) : Option.Rel (Later w) (s.update? E x u) (t.update? F x v) :=
  rel_map (binder? hs hE x) fun _ _ h => Later.set hs h x hu

/-- An assignment at the root is possible on both sides or on neither. -/
theorem updateRoot? (hs : S.stores w s t) (hE : (S.matching w).frame E F) (x : String)
    (hu : (S.matching w).value u v) : Option.Rel (Later w) (s.updateRoot? E x u) (t.updateRoot? F x v) := by
  unfold Store.updateRoot?
  rw [rel_isSome (rootValue? hs hE x)]
  split
  · exact .some (Later.set hs (root hs hE) x hu)
  · exact .none

/-! ## Actions that follow each other -/

variable {α β γ δ : Type}

/-- Results that correspond in some later world. -/
def Agree (w : S.World) (R : S.World → α → β → Prop) :
    EStateM.Result Stop Store α → EStateM.Result Stop Store β → Prop
  | .ok a s, .ok b t => ∃ w', S.Le w w' ∧ S.stores w' s t ∧ R w' a b
  | .error x s, .error y t => ∃ w', S.Le w w' ∧ S.stores w' s t ∧ (S.matching w').Stop x y
  | _, _ => False

/-- Actions that end alike on all stores that correspond. -/
def Follows (w : S.World) (R : S.World → α → β → Prop) (x : Eval α) (y : Eval β) : Prop :=
  ∀ ⦃s t⦄, S.stores w s t → Agree w R (x s) (y t)

/-- Corresponding values. -/
def values (w : S.World) : Value → Value → Prop := (S.matching w).value

/-- No condition on the results. -/
def done (_ : S.World) (_ : α) (_ : β) : Prop := True

variable {R : S.World → α → β → Prop} {Q : S.World → γ → δ → Prop}

/-- What agrees in a later world agrees. -/
theorem Agree.mono (h : S.Le w w') {a : EStateM.Result Stop Store α} {b : EStateM.Result Stop Store β}
    (ha : Agree w' R a b) : Agree w R a b := by
  cases a <;> cases b
  · obtain ⟨w₁, h₁, hs, hR⟩ := ha
    exact ⟨w₁, S.trans h h₁, hs, hR⟩
  · exact ha
  · exact ha
  · obtain ⟨w₁, h₁, hs, hR⟩ := ha
    exact ⟨w₁, S.trans h h₁, hs, hR⟩

namespace Follows

/-- Results that correspond are given. -/
theorem pure {a : α} {b : β} (h : R w a b) : Follows w R (Pure.pure a) (Pure.pure b) :=
  fun _ _ hs => ⟨w, S.refl w, hs, h⟩

/-- What ends both evaluations corresponds. -/
theorem throw {x y : Stop} (h : (S.matching w).Stop x y) :
    Follows w R (MonadExcept.throw x : Eval α) (MonadExcept.throw y : Eval β) :=
  fun _ _ hs => ⟨w, S.refl w, hs, h⟩

theorem fail (e : RuntimeError) : Follows w R (Eval.fail e : Eval α) (Eval.fail e : Eval β) := throw (.failed e)

/-- Nothing comes after an error. -/
theorem fail_bind (e : RuntimeError) {f : α → Eval γ} {g : β → Eval δ} :
    Follows w Q (Eval.fail e >>= f) (Eval.fail e >>= g) :=
  fun _ _ hs => ⟨w, S.refl w, hs, .failed e⟩

/-- Actions follow each other one after the other, the second ones in a later world. -/
theorem bind {x : Eval α} {y : Eval β} {f : α → Eval γ} {g : β → Eval δ} (hx : Follows w R x y)
    (hf : ∀ w' a b, S.Le w w' → R w' a b → Follows w' Q (f a) (g b)) : Follows w Q (x >>= f) (y >>= g) := by
  intro s t hs
  have h := hx hs
  show Agree w Q (EStateM.bind x f s) (EStateM.bind y g t)
  unfold EStateM.bind
  generalize x s = a at h
  generalize y t = b at h
  cases a <;> cases b
  · obtain ⟨w', hw, hs', hR⟩ := h
    exact (hf w' _ _ hw hR hs').mono hw
  · exact h.elim
  · exact h.elim
  · exact h

/-- The actions may depend on the stores they are run on. -/
theorem read {f : Store → Eval γ} {g : Store → Eval δ}
    (h : ∀ s t, S.stores w s t → Agree w Q (f s s) (g t t)) : Follows w Q (get >>= f) (get >>= g) :=
  fun s t hs => h s t hs

/-- The actions may depend on what a value is at the time. -/
theorem readDatum {f : Datum → Eval γ} {g : Datum → Eval δ}
    (h : ∀ s t, S.stores w s t → Agree w Q (f (s.datum u) s) (g (t.datum v) t)) :
    Follows w Q (Eval.datum u >>= f) (Eval.datum v >>= g) := fun s t hs => h s t hs

/-- Changes of the stores that go to later worlds follow each other. -/
theorem change {f g : Store → Store} (h : ∀ s t, S.stores w s t → Later w (f s) (g t)) :
    Follows w done (modify f : Eval Unit) (modify g) := by
  intro s t hs
  obtain ⟨w', hw, hs'⟩ := h s t hs
  exact ⟨w', hw, hs', trivial⟩

/-- One action after the other for the elements of two lists. -/
theorem forM {as : List α} {bs : List β} {r : α → β → Prop} (h : List.Forall₂ r as bs) {f : α → Eval Unit}
    {g : β → Eval Unit} (hf : ∀ w' a b, S.Le w w' → r a b → Follows w' done (f a) (g b)) :
    Follows w done (as.forM f) (bs.forM g) := by
  induction h generalizing w with
  | nil => exact pure trivial
  | @cons a b as bs hab _ ih =>
    show Follows w done (f a >>= fun _ => as.forM f) (g b >>= fun _ => bs.forM g)
    refine (hf w _ _ (S.refl w) hab).bind fun w₁ _ _ h₁ _ => ih fun w' a b hw => ?_
    exact hf w' a b (S.trans h₁ hw)

/-- The same list is gone through on both sides. -/
theorem forM_self (as : List α) {f g : α → Eval Unit} (hf : ∀ w' a, S.Le w w' → Follows w' done (f a) (g a)) :
    Follows w done (as.forM f) (as.forM g) :=
  forM (r := Eq) (List.forall₂_same.2 fun _ _ => rfl) fun w' a _ hw h => h ▸ hf w' a hw

/-- Objects that correspond are new values that do. -/
theorem alloc {o p : Object} (h : (S.matching w).Object o p) : Follows w values (Eval.alloc o) (Eval.alloc p) := by
  intro s t hs
  obtain ⟨w', hw, hs', hv⟩ := S.alloc hs h
  exact ⟨w', S.quiet_le hw, hs', hv⟩

/-- The actions may depend on what a value is. -/
theorem datum {f : Datum → Eval γ} {g : Datum → Eval δ} (h : (S.matching w).value u v)
    (hf : ∀ d e, (S.matching w).Datum d e → Follows w Q (f d) (g e)) :
    Follows w Q (Eval.datum u >>= f) (Eval.datum v >>= g) := fun _ _ hs => hf _ _ (S.datum hs h) hs

/-- The actions may depend on what a value is as a key. -/
theorem key {f : Datum → Eval γ} {g : Datum → Eval δ} (h : (S.matching w).value u v)
    (hf : ∀ d e, (S.matching w).Datum d e → (∀ c, d.keyContent? = some c → (S.matching w).filed c u v) →
      Follows w Q (f d) (g e)) :
    Follows w Q (Eval.datum u >>= f) (Eval.datum v >>= g) :=
  fun _ _ hs => hf _ _ (S.datum hs h) (fun _ => S.filed hs h) hs

/-- Data that correspond are given as values that do. -/
theorem give {d e : Datum} (h : (S.matching w).Datum d e) : Follows w values (Eval.give d) (Eval.give e) := by
  cases h with
  | null => exact pure (S.null w)
  | boolean b => exact pure (S.boolean w b)
  | object h => exact alloc h

theorem bindName (hE : (S.matching w).frame E F) (x : String) (h : (S.matching w).value u v) :
    Follows w done (Eval.bind E x u) (Eval.bind F x v) :=
  change fun _ _ hs => Later.set hs hE x h

/-- New frames with nothing around them are owners of what is made in them. -/
theorem newRoot : Follows w (fun w => (S.matching w).owner) (modifyGet Store.newRoot : Eval FrameId)
    (modifyGet Store.newRoot) := by
  intro s t hs
  obtain ⟨w', hw, hs', _, howner⟩ := S.newFrame (f := ⟨none, []⟩) (g := ⟨none, []⟩) hs s.binds_nil .none .nil
  exact ⟨w', S.quiet_le hw, hs', howner rfl⟩

/-- New frames inside of frames that correspond do so. -/
theorem newChild (h : (S.matching w).frame E F) :
    Follows w (fun w => (S.matching w).frame) (modifyGet (·.newChild E) : Eval FrameId) (modifyGet (·.newChild F)) := by
  intro s t hs
  obtain ⟨w', hw, hs', hframe, _⟩ := S.newFrame (f := ⟨some E, []⟩) (g := ⟨some F, []⟩) hs s.binds_nil (.some h) .nil
  exact ⟨w', S.quiet_le hw, hs', hframe⟩

/-- What is returned on both sides is the value of both. -/
theorem catchReturn {x y : Eval Value} (h : Follows w values x y) :
    Follows w values (Eval.catchReturn x) (Eval.catchReturn y) := by
  intro s t hs
  have h := h hs
  unfold Eval.catchReturn
  generalize x s = a at h
  generalize y t = b at h
  cases a with
  | ok => cases b with
    | ok => exact h
    | error => exact h.elim
  | error => cases b with
    | ok => exact h.elim
    | error =>
      obtain ⟨w', hw, hs', hstop⟩ := h
      cases hstop with
      | returned huv => exact ⟨w', hw, hs', huv⟩
      | failed e => exact ⟨w', hw, hs', .failed e⟩
      | tooDeep => exact ⟨w', hw, hs', .tooDeep⟩

end Follows

end Simulation

end Pron
