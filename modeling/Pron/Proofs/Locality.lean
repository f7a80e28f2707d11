import Mathlib.Logic.Relation
import Pron.Proofs.Invariant

/-!
# Locality

An evaluation knows the store only through the frame it works in. What it can come to know is what the frame reaches by
way of parents, bindings, parts of arrays and hashes, and the frames of functions, constructors and instances
(`Store.Reaches`), and what is made meanwhile. Nothing else is changed (`Eval.confined`): an evaluation keeps every set
of places that is closed under references (`Invariant.region`), and the places that a frame reaches are such a set.
-/

namespace Pron

/-! ## Places -/

/-- Frames and objects. -/
inductive Place
  | frame (E : FrameId)
  | object (id : ObjectId)

namespace Store

/-- What is at a place holds a reference to another place. -/
inductive RefersTo (s : Store) : Place → Place → Prop
  | parent {E P : FrameId} : s.parent? E = some P → RefersTo s (.frame E) (.frame P)
  | binding {E : FrameId} {x : String} {id : ObjectId} : (x, .ref id) ∈ s.bindings E →
      RefersTo s (.frame E) (.object id)
  | part {id j : ObjectId} {o : Object} : s.datum (.ref id) = .object o → .ref j ∈ o.parts →
      RefersTo s (.object id) (.object j)
  | frame {id : ObjectId} {o : Object} {E : FrameId} : s.datum (.ref id) = .object o → o.frame? = some E →
      RefersTo s (.object id) (.frame E)

/-- A place is reached from another one by references. -/
def Reaches (s : Store) : Place → Place → Prop := Relation.ReflTransGen s.RefersTo

/-- Whether there is something at a place. -/
def Has (s : Store) : Place → Prop
  | .frame E => s.HasFrame E
  | .object id => s.HasValue (.ref id)

/-- An assignment adds no places. -/
theorem has_set {s : Store} {E : FrameId} {x : String} {v : Value} {p : Place} : (s.set E x v).Has p ↔ s.Has p := by
  cases p with
  | frame F => exact hasFrame_set
  | object id => exact Iff.rfl

/-- Writing adds no places. -/
theorem has_write {s : Store} {id : ObjectId} {o : Object} {p : Place} : (s.write id o).Has p ↔ s.Has p := by
  cases p with
  | frame F => exact Iff.rfl
  | object i => exact hasValue_write (v := .ref i)

end Store

/-! ## Regions -/

namespace Guard

/-- Values and frames of a region; it may leave out the frames of constructors, into which no evaluation looks. -/
def region (A : Place → Prop) (constructors : Prop) : Guard where
  value
    | .ref id => A (.object id)
    | _ => True
  frame E := A (.frame E)
  owner E := A (.frame E)
  maker E := constructors → A (.frame E)
  filed _ _ := True
  ordered := False

/-- What lies in a smaller region lies in a larger one. -/
theorem region_mono {A B : Place → Prop} {constructors : Prop} (h : ∀ p, A p → B p) :
    (region A constructors).Le (region B constructors) where
  value {v} hv := by
    cases v with
    | null | boolean => trivial
    | ref id => exact h _ hv
  frame := h _
  owner := h _
  maker hE hc := h _ (hE hc)
  ordered := id

end Guard

section Regions

variable {A B : Place → Prop} {constructors : Prop} {s s' t : Store} {o : Object} {E : FrameId} {id : ObjectId}
  {v : Value}

/-- No reference leads out of a set of places. -/
structure Closed (A : Place → Prop) (constructors : Prop) (s : Store) : Prop where
  object {id : ObjectId} {o : Object} : A (.object id) → s.datum (.ref id) = .object o →
    (Guard.region A constructors).Object o
  parent {E P : FrameId} : A (.frame E) → s.parent? E = some P → A (.frame P)
  binding {E : FrameId} {b : String × Value} : A (.frame E) → b ∈ s.bindings E →
    (Guard.region A constructors).value b.2

/-- A region has the parts of its arrays and hashes. -/
theorem Closed.part (h : Closed A constructors s) (hid : A (.object id)) (ho : s.datum (.ref id) = .object o)
    (hv : v ∈ o.parts) : (Guard.region A constructors).value v := by
  have hobject := h.object hid ho
  cases o with
  | array elements => exact hobject v hv
  | hash entries =>
    obtain ⟨e, he, rfl | rfl⟩ := Object.mem_parts_hash hv
    · exact (hobject.1 e he).key
    · exact (hobject.1 e he).value
  | _ => cases hv

/-- Only which places there are in a region matters. -/
theorem Closed.congr (h : Closed A constructors s) (hAB : ∀ p, A p ↔ B p) : Closed B constructors s := by
  have heq : A = B := funext fun p => propext (hAB p)
  exact heq ▸ h

/-! ## What keeps a set closed -/

namespace Closed

/-- A set may grow by the place of a new object. -/
theorem alloc (h : Closed A constructors s) (ho : (Guard.region A constructors).Object o) (hAB : ∀ p, A p → B p)
    (hBA : ∀ p, B p → s.Has p → A p) : Closed B constructors (s.alloc o).2 where
  object {id p} hid hp := by
    refine Guard.Object.mono (Guard.region_mono hAB) (fun h => h) ?_
    rcases Store.datum_alloc_cases hp with ⟨_, rfl⟩ | hp
    · exact ho
    · exact h.object (hBA _ hid (Store.hasValue_of_datum hp)) hp
  parent hE hP := hAB _ (h.parent (hBA _ hE (Store.hasFrame_of_parent hP)) hP)
  binding hE hb := (Guard.region_mono hAB).value (h.binding (hBA _ hE (Store.hasFrame_of_binding hb)) hb)

/-- A set may grow by the place of a new frame. -/
theorem newFrame {f : Frame} (h : Closed A constructors s) (hparent : ∀ P, f.parent = some P → A (.frame P))
    (hbindings : ∀ b ∈ f.bindings, (Guard.region A constructors).value b.2) (hAB : ∀ p, A p → B p)
    (hBA : ∀ p, B p → s.Has p → A p) : Closed B constructors (s.newFrame f).2 where
  object hid ho :=
    Guard.Object.mono (Guard.region_mono hAB) (fun h => h) (h.object (hBA _ hid (Store.hasValue_of_datum ho)) ho)
  parent {E P} hE hP := by
    refine hAB _ ?_
    rcases Store.hasFrame_newFrame_cases (Store.hasFrame_of_parent hP) with rfl | hframe
    · rw [Store.parent?_newFrame_self] at hP
      exact hparent P hP
    · rw [Store.parent?_newFrame hframe] at hP
      exact h.parent (hBA _ hE hframe) hP
  binding {E b} hE hb := by
    refine (Guard.region_mono hAB).value ?_
    rcases Store.hasFrame_newFrame_cases (Store.hasFrame_of_binding hb) with rfl | hframe
    · rw [Store.bindings_newFrame_self] at hb
      exact hbindings b hb
    · rw [Store.bindings_newFrame hframe] at hb
      exact h.binding (hBA _ hE hframe) hb

/-- A value of the region may be bound anywhere. -/
theorem set (h : Closed A constructors s) (x : String) (hv : (Guard.region A constructors).value v) :
    Closed A constructors (s.set E x v) where
  object := h.object
  parent hE hP := h.parent hE (Store.parent?_set ▸ hP)
  binding hF hb := by
    rcases Store.mem_bindings_set hb with ⟨_, rfl⟩ | hb
    · exact hv
    · exact h.binding hF hb

/-- An object may be written over with one that refers to the region only. -/
theorem write (h : Closed A constructors s) (ho : (Guard.region A constructors).Object o) :
    Closed A constructors (s.write id o) where
  object hi hp := by
    rcases Store.datum_write_cases hp with ⟨_, rfl⟩ | ⟨_, hp⟩
    · exact ho
    · exact h.object hi hp
  parent := h.parent
  binding := h.binding

theorem withLogs (h : Closed A constructors s) (printed : String) (requests : List String) :
    Closed A constructors (s.withLogs printed requests) := ⟨h.object, h.parent, h.binding⟩

end Closed

/-! ## What spares all else -/

/-- What was there is still there, and outside of a set it is what it was. In the set, too, frames stay inside the same
frames, and only integers and hashes change. -/
structure Spared (A : Place → Prop) (s t : Store) : Prop where
  has {p : Place} : s.Has p → t.Has p
  frame {E : FrameId} : s.HasFrame E → ¬A (.frame E) → t.frames[E.index]? = s.frames[E.index]?
  object {id : ObjectId} : s.HasValue (.ref id) → ¬A (.object id) → t.objects[id.index]? = s.objects[id.index]?
  parent {E : FrameId} : s.HasFrame E → t.parent? E = s.parent? E
  fixed {v : Value} {o : Object} : s.datum v = .object o → o.Fixed → t.datum v = .object o

namespace Spared

theorem refl (A : Place → Prop) (s : Store) : Spared A s s :=
  ⟨id, fun _ _ => rfl, fun _ _ => rfl, fun _ => rfl, fun h _ => h⟩

/-- What is spared twice is spared, if the second set has no places of the first store but those of the first set. -/
theorem trans {s₁ s₂ s₃ : Store} (h₁ : Spared A s₁ s₂) (h₂ : Spared B s₂ s₃) (hB : ∀ p, s₁.Has p → B p → A p) :
    Spared A s₁ s₃ where
  has hp := h₂.has (h₁.has hp)
  frame {E} hE hA := by
    have hE₂ : s₂.HasFrame E := h₁.has (p := .frame E) hE
    exact (h₂.frame hE₂ (mt (hB (.frame E) hE) hA)).trans (h₁.frame hE hA)
  object {id} hid hA := by
    have hid₂ : s₂.HasValue (.ref id) := h₁.has (p := .object id) hid
    exact (h₂.object hid₂ (mt (hB (.object id) hid) hA)).trans (h₁.object hid hA)
  parent {E} hE := by
    have hE₂ : s₂.HasFrame E := h₁.has (p := .frame E) hE
    exact (h₂.parent hE₂).trans (h₁.parent hE)
  fixed ho hfixed := h₂.fixed (h₁.fixed ho hfixed) hfixed

/-- A new object spares all there is. -/
theorem alloc (A : Place → Prop) (s : Store) (o : Object) : Spared A s (s.alloc o).2 where
  has {p} hp := by
    cases p with
    | frame E => exact hp
    | object id => exact Store.hasValue_alloc (v := .ref id) hp
  frame _ _ := rfl
  object {id} hid _ := by
    have hlt : id.index < s.objects.size := hid
    simp [Store.alloc, Array.getElem?_push, Nat.ne_of_lt hlt]
  parent _ := rfl
  fixed ho _ := (Store.datum_alloc (Store.hasValue_of_datum ho)).trans ho

/-- A new frame spares all there is. -/
theorem newFrame (A : Place → Prop) (s : Store) (f : Frame) : Spared A s (s.newFrame f).2 where
  has {p} hp := by
    cases p with
    | frame E => exact Store.hasFrame_newFrame hp
    | object id => exact hp
  frame hE _ := Store.frames_newFrame hE
  object _ _ := rfl
  parent := Store.parent?_newFrame
  fixed ho _ := ho

/-- A frame of the set may be assigned to. -/
theorem set (hE : A (.frame E)) (x : String) : Spared A s (s.set E x v) where
  has := Store.has_set.2
  frame {F} _ hF := by
    refine Store.frames_set_of_ne ?_
    rintro rfl
    exact hF hE
  object _ _ := rfl
  parent _ := Store.parent?_set
  fixed ho _ := ho

/-- An object of the set may be written over, unless it is a function or the like. -/
theorem write {p : Object} (hid : A (.object id)) (hp : s.datum (.ref id) = .object p) (hfixed : ¬p.Fixed) :
    Spared A s (s.write id o) where
  has := Store.has_write.2
  frame _ _ := rfl
  object {i} _ hi := by
    have hne : id.index ≠ i.index := by
      intro he
      have heq : id = i := congrArg ObjectId.mk he
      exact hi (heq ▸ hid)
    simp [Store.write, hne]
  parent _ := rfl
  fixed {u q} hq hfixed' := by
    have hne : u ≠ .ref id := by
      rintro rfl
      rw [hp] at hq
      cases hq
      exact hfixed hfixed'
    exact (Store.datum_write_of_ne hne).trans hq

theorem withLogs (A : Place → Prop) (s : Store) (printed : String) (requests : List String) :
    Spared A s (s.withLogs printed requests) :=
  ⟨fun h => h, fun _ _ => rfl, fun _ _ => rfl, fun _ => rfl, fun h _ => h⟩

/-- A larger set spares less. -/
theorem mono (h : Spared A s t) (hAB : ∀ p, s.Has p → A p → B p) : Spared B s t := (refl B s).trans h hAB

/-- Values outside of the set refer to what they did. -/
theorem datum (h : Spared A s t) (hid : s.HasValue (.ref id)) (hA : ¬A (.object id)) :
    t.datum (.ref id) = s.datum (.ref id) := by
  simp only [Store.datum, h.object hid hA]

/-- Frames outside of the set bind what they did. -/
theorem bindings (h : Spared A s t) (hE : s.HasFrame E) (hA : ¬A (.frame E)) : t.bindings E = s.bindings E := by
  rw [Store.bindings, Store.bindings, h.frame hE hA]

/-- A root that is spared binds what it bound. -/
theorem get?_of_root (h : Spared A s t) (hE : s.HasFrame E) (hroot : s.parent? E = none) (hA : ¬A (.frame E))
    (x : String) : t.get? E x = s.get? E x := by
  rw [Store.get?_of_root ((h.parent hE).trans hroot), Store.get?_of_root hroot, h.bindings hE hA]

end Spared

namespace Closed

/-- What is spared stays closed. -/
theorem spared (h : Closed A constructors s) (hs : Spared B s t) (hhas : ∀ p, A p → s.Has p) (hAB : ∀ p, A p → ¬B p) :
    Closed A constructors t where
  object hid ho := h.object hid (hs.datum (hhas _ hid) (hAB _ hid) ▸ ho)
  parent hE hP := h.parent hE (hs.parent (hhas _ hE) ▸ hP)
  binding hE hb := h.binding hE (hs.bindings (hhas _ hE) (hAB _ hE) ▸ hb)

/-- Two closed sets are closed together. -/
theorem union (hA : Closed A constructors s) (hB : Closed B constructors s) :
    Closed (fun p => A p ∨ B p) constructors s := by
  have hleft : (Guard.region A constructors).Le (Guard.region (fun p => A p ∨ B p) constructors) :=
    Guard.region_mono fun _ => .inl
  have hright : (Guard.region B constructors).Le (Guard.region (fun p => A p ∨ B p) constructors) :=
    Guard.region_mono fun _ => .inr
  refine ⟨fun hid ho => ?_, fun hE hP => ?_, fun hE hb => ?_⟩
  · rcases hid with hid | hid
    · exact (hA.object hid ho).mono hleft fun h => h
    · exact (hB.object hid ho).mono hright fun h => h
  · exact hE.imp (hA.parent · hP) (hB.parent · hP)
  · rcases hE with hE | hE
    · exact hleft.value (hA.binding hE hb)
    · exact hright.value (hB.binding hE hb)

end Closed

/-! ## Regions as invariants -/

/-- The places of a set with those at which there was nothing: what may be changed. -/
def Changeable (A : Place → Prop) (s : Store) (p : Place) : Prop := A p ∨ ¬s.Has p

/-- Of what was there only the set can change. -/
theorem Changeable.of_has {p : Place} (hp : Changeable A s p) (hs : s.Has p) : A p :=
  hp.resolve_right fun hnew => hnew hs

/-- The places of a set with those at which something was put since the given store. -/
def Grown (A : Place → Prop) (s t : Store) (p : Place) : Prop := A p ∨ ¬s.Has p ∧ t.Has p

namespace Grown

variable {p : Place}

theorem self : Grown A s s p ↔ A p := by
  constructor
  · rintro (hp | ⟨hnew, hp⟩)
    · exact hp
    · exact (hnew hp).elim
  · exact .inl

theorem mono (h : ∀ p, t.Has p → s'.Has p) (hp : Grown A s t p) : Grown A s s' p :=
  hp.imp_right fun ⟨hs, ht⟩ => ⟨hs, h p ht⟩

/-- What has grown but was there already had grown before. -/
theorem of_has (hp : Grown A s s' p) (ht : t.Has p) : Grown A s t p := hp.imp_right fun ⟨hs, _⟩ => ⟨hs, ht⟩

/-- What has grown depends only on what is there. -/
theorem congr (h : ∀ p, t.Has p ↔ s'.Has p) (p : Place) : Grown A s t p ↔ Grown A s s' p :=
  or_congr_right (and_congr_right fun _ => h p)

/-- What has grown may be changed. -/
theorem changeable (hp : Grown A s t p) : Changeable A s p := hp.imp_right And.left

end Grown

/-- A region that has grown stays closed under assignments. -/
theorem Closed.grown_set (h : Closed (Grown A s t) constructors t) (x : String)
    (hv : (Guard.region (Grown A s t) constructors).value v) :
    Closed (Grown A s (t.set E x v)) constructors (t.set E x v) :=
  (h.set x hv).congr (Grown.congr fun _ => Store.has_set.symm)

/-- A region that has grown stays closed when one of its objects is written over. -/
theorem Closed.grown_write (h : Closed (Grown A s t) constructors t)
    (ho : (Guard.region (Grown A s t) constructors).Object o) :
    Closed (Grown A s (t.write id o)) constructors (t.write id o) :=
  (h.write ho).congr (Grown.congr fun _ => Store.has_write.symm)

/-- Evaluations that start in a closed set of places of the given store: they change nothing else, and come to know that
set and new places only. -/
def Invariant.region (A : Place → Prop) (constructors : Prop) (s : Store) : Invariant where
  Holds t := Closed (Grown A s t) constructors t ∧ ∀ p, s.Has p → t.Has p
  Later _ := Spared (Changeable A s)
  Quiet := Spared (Changeable A s)
  guard t := Guard.region (Grown A s t) constructors
  refl _ := Spared.refl _
  trans h₁ h₂ := h₁.trans h₂ fun _ _ h => h
  mono h := Guard.region_mono fun _ => Grown.mono fun _ => h.has
  quiet_refl := Spared.refl _
  quiet_trans h₁ h₂ := h₁.trans h₂ fun _ _ h => h
  fewer _ h := h
  quiet_later _ h := h
  filed_mono _ _ := trivial
  filed_later _ _ _ := trivial
  null _ := trivial
  boolean _ _ := trivial
  owner_frame hE := hE
  owner_maker hE _ := hE
  object {t v o} ht hv ho := by
    cases v with
    | null | boolean => cases ho
    | ref id => exact ht.1.object hv ho
  parent ht hE hP := ht.1.parent hE hP
  binding ht hE hb := ht.1.binding hE hb
  filed _ _ _ := trivial
  filed_copy _ _ _ _ := trivial
  alloc {t o} ht ho := by
    have hspared := Spared.alloc (Changeable A s) t o
    have hclosed := ht.1.alloc ho (fun _ => Grown.mono fun _ => hspared.has) fun _ => Grown.of_has
    refine ⟨⟨hclosed, fun p hp => hspared.has (ht.2 p hp)⟩, hspared, .inr ⟨fun hnew => ?_, ?_⟩⟩
    · have hlt : t.objects.size < t.objects.size := ht.2 _ hnew
      omega
    · exact Store.hasValue_alloc_self
  newFrame {t f} ht _ hparent hbindings := by
    have hspared := Spared.newFrame (Changeable A s) t f
    have hclosed := ht.1.newFrame hparent hbindings (fun _ => Grown.mono fun _ => hspared.has) fun _ => Grown.of_has
    have hnew : Grown A s (t.newFrame f).2 (.frame (t.newFrame f).1) := by
      refine .inr ⟨fun hnew => ?_, Store.hasFrame_newFrame_self⟩
      have hlt : t.frames.size < t.frames.size := ht.2 _ hnew
      omega
    exact ⟨⟨hclosed, fun p hp => hspared.has (ht.2 p hp)⟩, hspared, hnew, fun _ => hnew⟩
  set {t E v} x ht hE hv := by
    have hspared : Spared (Changeable A s) t (t.set E x v) := .set (Grown.changeable hE) x
    exact ⟨⟨ht.1.grown_set x hv, fun p hp => hspared.has (ht.2 p hp)⟩, hspared⟩
  erase {t id entries} c ht hid hh := by
    have hspared : Spared (Changeable A s) t (t.write id (.hash (Entries.erase c entries))) :=
      .write (Grown.changeable hid) hh fun h => h
    have hentries := ht.1.object hid hh
    have hobject : (Guard.region (Grown A s t) constructors).Object (.hash (Entries.erase c entries)) :=
      ⟨fun e he => hentries.1 e (List.mem_filter.1 he).1, False.elim⟩
    exact ⟨⟨ht.1.grown_write hobject, fun p hp => hspared.has (ht.2 p hp)⟩, hspared⟩
  print _ ht := ⟨⟨ht.1.withLogs _ _, ht.2⟩, .withLogs _ _ _ _⟩
  request _ ht := ⟨⟨ht.1.withLogs _ _, ht.2⟩, .withLogs _ _ _ _⟩

/-- At the start nothing has grown. -/
theorem Invariant.region_holds (h : Closed A constructors s) : (Invariant.region A constructors s).Holds s :=
  ⟨h.congr fun _ => Grown.self.symm, fun _ hp => hp⟩

/-- A step of an integer stays in the region, wherever the name is bound. -/
theorem Invariant.region_steps (A : Place → Prop) (constructors : Prop) (s : Store) (keys : List Value)
    (stop : Expr → FrameId → Store → Bool) : (Invariant.region A constructors s).Steps keys stop := by
  refine Invariant.steps_of_write fun {t E x id n} up m ht hid _ hn _ => ?_
  have hspared : Spared (Changeable A s) t (t.write id (.integer m)) :=
    .write (Grown.changeable hid) hn (fun h => h)
  have hinteger : (Guard.region (Grown A s t) constructors).Object (.integer m) := trivial
  exact ⟨⟨ht.1.grown_write hinteger, fun p hp => hspared.has (ht.2 p hp)⟩, hspared⟩

/-- Evaluations keep a region. -/
theorem Invariant.region_recs (A : Place → Prop) (constructors : Prop) (s : Store) (keys : List Value)
    (library : Library) (n : Nat) :
    ((region A constructors s).toSimulation keys).Recs (Eval.expr library n) (Eval.expr library n) := by
  have hrecs := Invariant.recs (fun keys => region_steps A constructors s keys fun _ _ _ => false) library n keys
  rwa [Eval.exprUntil_never] at hrecs

end Regions

/-! ## What a frame reaches -/

/-- An evaluation in a frame changes only what the frame reaches. Its result, and all that it stores, refers only to
what the frame reaches and to what is new. -/
structure Confined (s : Store) (E : FrameId) (r : Outcome × Store) : Prop where
  has {p : Place} : s.Has p → r.2.Has p
  frame {F : FrameId} : s.HasFrame F → ¬s.Reaches (.frame E) (.frame F) →
    r.2.frames[F.index]? = s.frames[F.index]?
  object {id : ObjectId} : s.HasValue (.ref id) → ¬s.Reaches (.frame E) (.object id) →
    r.2.objects[id.index]? = s.objects[id.index]?
  stored {p q : Place} : Grown (s.Reaches (.frame E)) s r.2 p → r.2.RefersTo p q →
    Grown (s.Reaches (.frame E)) s r.2 q
  result {id : ObjectId} : r.1 = .value (.ref id) ∨ r.1 = .returned (.ref id) →
    Grown (s.Reaches (.frame E)) s r.2 (.object id)

section Confined

variable {s : Store} {E : FrameId}

/-- What a frame reaches is closed under references, those to the frames of constructors included. -/
theorem Store.closed_reaches (s : Store) (E : FrameId) : Closed (s.Reaches (.frame E)) True s := by
  have hreaches {p q : Place} (hp : s.Reaches (.frame E) p) (h : s.RefersTo p q) : s.Reaches (.frame E) q := hp.tail h
  have hvalue {id : ObjectId} {o : Object} (hid : s.Reaches (.frame E) (.object id))
      (ho : s.datum (.ref id) = .object o) : ∀ v ∈ o.parts, (Guard.region (s.Reaches (.frame E)) True).value v := by
    intro v hv
    cases v with
    | null | boolean => trivial
    | ref j => exact hreaches hid (.part ho hv)
  refine ⟨fun {id o} hid ho => ?_, fun hE hP => hreaches hE (.parent hP), fun {F b} hF hb => ?_⟩
  · cases o with
    | integer | real | text | builtin => trivial
    | array elements => exact hvalue hid ho
    | hash entries =>
      refine ⟨fun e he => ⟨trivial, ?_, ?_⟩, False.elim⟩
      · exact hvalue hid ho _ (Object.key_mem_parts he)
      · exact hvalue hid ho _ (Object.value_mem_parts he)
    | function | inst => exact hreaches hid (.frame ho rfl)
    | init => exact fun _ => hreaches hid (.frame ho rfl)
  · obtain ⟨x, v⟩ := b
    cases v with
    | null | boolean => trivial
    | ref id => exact hreaches hF (.binding hb)

/-- Evaluations that start in a frame of the given store. -/
def Invariant.reached (s : Store) (E : FrameId) : Invariant := .region (s.Reaches (.frame E)) True s

/-- What a frame reaches is closed, and the frame is in it. -/
theorem Invariant.reached_holds (s : Store) (E : FrameId) :
    (reached s E).Holds s ∧ ((reached s E).guard s).frame E :=
  ⟨region_holds (s.closed_reaches E), .inl .refl⟩

/-- An evaluation that keeps the region of a frame is confined to what the frame reaches. -/
theorem Confined.of_ends {x : Eval Value} (h : (Invariant.reached s E).Ends [] s (Invariant.reached s E).known (x s)) :
    Confined s E (Outcome.of x s) := by
  obtain ⟨hclosed, hspared⟩ := h.outcome
  have hunchanged {p : Place} (hp : s.Has p) (hE : ¬s.Reaches (.frame E) p) :
      ¬Changeable (s.Reaches (.frame E)) s p := fun h => hE (h.of_has hp)
  refine ⟨hspared.has, fun {F} hF hE => hspared.frame hF (hunchanged (p := .frame F) hF hE),
    fun {id} hid hE => hspared.object hid (hunchanged (p := .object id) hid hE), fun {p q} hp hpq => ?_,
    fun {id} hr => ?_⟩
  · cases hpq with
    | parent hP => exact hclosed.1.parent hp hP
    | binding hb => exact hclosed.1.binding hp hb
    | part ho hj => exact hclosed.1.part hp ho hj
    | @frame _ o F ho hF =>
      have hobject := hclosed.1.object hp ho
      cases o with
      | function | inst => cases hF; exact hobject
      | init => cases hF; exact hobject trivial
      | _ => cases hF
  · unfold Outcome.of at hr ⊢
    generalize x s = r at h hr ⊢
    cases r with
    | ok v t =>
      rcases hr with hr | hr
      · cases hr
        exact h.2.2
      · cases hr
    | error stop t =>
      cases stop with
      | returned v =>
        rcases hr with hr | hr
        · cases hr
        · cases hr
          exact h.2.2
      | failed | tooDeep => rcases hr with hr | hr <;> cases hr

/-- **Locality of evaluation.** Expressions, statements and blocks are confined to what their frame reaches, and method
calls to what the frame of the instance reaches; so a frame that an instance does not reach is left as it is. -/
theorem Eval.confined (library : Library) (n : Nat) (s : Store) (E : FrameId) :
    (∀ e, Confined s E (Outcome.of (expr library n e E) s)) ∧
    (∀ st, Confined s E (Outcome.of (stmt (expr library n) st E) s)) ∧
    (∀ body, Confined s E (Outcome.of (block (expr library n) body E) s)) ∧
    ∀ (object method : String) (arguments : List Expr) (v : Value) (className : String) (I : FrameId),
      s.get? E object = some v → s.datum v = .object (.inst className I) →
      Confined s I (Outcome.of (expr library n (.methodCall object method arguments) E) s) ∧
      ∀ G, s.HasFrame G → ¬s.Reaches (.frame I) (.frame G) →
        (Outcome.of (expr library n (.methodCall object method arguments) E) s).2.bindings G = s.bindings G := by
  have hholds (F : FrameId) := Invariant.reached_holds s F
  have hrecs (F : FrameId) (n : Nat) := Invariant.region_recs (s.Reaches (.frame F)) True s [] library n
  have hE : (((Invariant.reached s E).toSimulation []).matching s).frame E E := ⟨rfl, (hholds E).2⟩
  have hexpr := fun e => Invariant.Ends.of_values (hrecs E n s e hE) (hholds E).1
  have hstmt := fun st => Invariant.Ends.of_values (.stmt (hrecs E n) st hE) (hholds E).1
  have hblock := fun body => Invariant.Ends.of_values (.block (hrecs E n) body hE) (hholds E).1
  refine ⟨fun e => .of_ends (hexpr e), fun st => .of_ends (hstmt st), fun body => .of_ends (hblock body), ?_⟩
  intro object method arguments v className I hget hv
  have hcall : Confined s I (Outcome.of (expr library n (.methodCall object method arguments) E) s) := by
    cases n with
    | zero =>
      have hstopped : (Invariant.reached s I).Ends [] s (Invariant.reached s I).known (.error .tooDeep s) :=
        ⟨(hholds I).1, Spared.refl _ s, trivial⟩
      exact .of_ends (x := throw .tooDeep) hstopped
    | succ n =>
      refine .of_ends (Invariant.callMethod (hrecs I n) (hholds I).1 (fun u name F hu hF => ?_) method arguments)
      rw [hget] at hu
      cases hu
      rw [hv] at hF
      cases hF
      exact (hholds I).2
  refine ⟨hcall, fun G hG hreach => ?_⟩
  rw [Store.bindings, Store.bindings, hcall.frame hG hreach]

/-- An instance, bound by the frame of the program, whose only method binds a name. -/
def detached : Store where
  objects := #[.inst "C" ⟨1⟩, .function ⟨⟨[], [.var "a" .null]⟩, ⟨1⟩, true⟩]
  frames := #[⟨none, [("a", .ref ⟨0⟩)]⟩, ⟨none, [("m", .ref ⟨1⟩)]⟩]
  printed := ""
  requests := []

/-- The frame around the instance is out of its reach. -/
theorem detached_not_reaches : ¬detached.Reaches (.frame ⟨1⟩) (.frame ⟨0⟩) := by
  have hreach (p : Place) (h : detached.Reaches (.frame ⟨1⟩) p) : p = .frame ⟨1⟩ ∨ p = .object ⟨1⟩ := by
    induction h with
    | refl => exact .inl rfl
    | tail _ hpq ih =>
      rcases ih with rfl | rfl
      · cases hpq with
        | parent hP => cases hP
        | binding hb =>
          have hm : _ = ("m", Value.ref ⟨1⟩) := List.mem_singleton.1 hb
          cases hm
          exact .inr rfl
      · cases hpq with
        | part ho hj => cases ho; cases hj
        | frame ho hE => cases ho; cases hE; exact .inl rfl
  intro h
  rcases hreach _ h with h | h <;> cases h

theorem detached_confined :
    detached.get? ⟨0⟩ "a" = some (.ref ⟨0⟩) ∧ detached.datum (.ref ⟨0⟩) = .object (.inst "C" ⟨1⟩) ∧
      detached.HasFrame ⟨0⟩ ∧ ¬detached.Reaches (.frame ⟨1⟩) (.frame ⟨0⟩) ∧
      (Outcome.of (Eval.expr (Library.ofUnits []) 3 (.methodCall "a" "m" []) ⟨0⟩) detached).2.bindings ⟨0⟩ =
        detached.bindings ⟨0⟩ := by
  have hget : detached.get? ⟨0⟩ "a" = some (.ref ⟨0⟩) := by decide +kernel
  have hinst : detached.datum (.ref ⟨0⟩) = .object (.inst "C" ⟨1⟩) := rfl
  have hframe : detached.HasFrame ⟨0⟩ := Nat.zero_lt_two
  have hconfined := (Eval.confined (Library.ofUnits []) 3 detached ⟨0⟩).2.2.2 "a" "m" [] _ _ _ hget hinst
  exact ⟨hget, hinst, hframe, detached_not_reaches, hconfined.2 _ hframe detached_not_reaches⟩

end Confined

end Pron
