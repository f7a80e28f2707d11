import Pron.Proofs.Evaluation
import Pron.Proofs.Instances.Copy

/-!
# Instances share no storage

The integers, arrays and hashes that are seen in the frame of an instance are its own. What is done with them, and what
is assigned there, is never seen in the frame from which the instance was made, and the other way round
(`Reachable.instance_detached`).
-/

namespace Pron

namespace Store

variable {s t w : Store} {u v v' : Value} {E F I T : FrameId} {x : String} {id : ObjectId} {o p : Object}

/-! ## What is seen in a frame -/

/-- A value is another one, or inside of it at some depth. -/
def Inside (s : Store) : Value → Value → Prop := Relation.ReflTransGen s.IsPart

/-- A value is bound in a frame, or inside of one that is. -/
def Seen (s : Store) (E : FrameId) (u : Value) : Prop := ∃ x v, (x, v) ∈ s.bindings E ∧ s.Inside u v

/-- Two frames in which no integer, array or hash is seen together. -/
structure Separate (s : Store) (E F : FrameId) : Prop where
  left : s.HasFrame E
  right : s.HasFrame F
  ne : E ≠ F
  storage {u : Value} : s.IsStorage u → s.Seen E u → ¬s.Seen F u

/-- Neither frame comes first. -/
theorem Separate.symm (h : s.Separate E F) : s.Separate F E :=
  ⟨h.right, h.left, h.ne.symm, fun hu hF hE => h.storage hu hE hF⟩

/-- What is seen in a frame is what it was. -/
structure SameView (E : FrameId) (s t : Store) : Prop where
  bindings : t.bindings E = s.bindings E
  datum {u : Value} : s.Seen E u → t.datum u = s.datum u
  display {u : Value} : s.Seen E u → t.display u = s.display u

theorem WellFormed.hasValue_inside (hs : s.WellFormed) (h : s.Inside u v) (hv : s.HasValue v) : s.HasValue u := by
  induction h using Relation.ReflTransGen.head_induction_on with
  | refl => exact hv
  | head hpart _ _ =>
    obtain ⟨o, ho, hu⟩ := hpart
    exact hs.hasValue_part ho hu

theorem WellFormed.hasValue_seen (hs : s.WellFormed) (h : s.Seen E u) : s.HasValue u := by
  obtain ⟨x, v, hv, hu⟩ := h
  exact hs.hasValue_inside hu (hs.binding hv)

/-- Values are shown alike as long as what is inside of them does not change. -/
theorem displayUpTo_of_datum (n : Nat) (h : ∀ w, s.Inside w u → t.datum w = s.datum w) :
    t.displayUpTo n u = s.displayUpTo n u := by
  induction n generalizing u with
  | zero => rfl
  | succ n ih => exact displayUpTo_of_parts (h u .refl) fun w hw => ih fun w' hw' => h w' (hw'.tail hw)

theorem SameView.of_datum (hbindings : t.bindings E = s.bindings E) (hdatum : ∀ u, s.Seen E u → t.datum u = s.datum u) :
    SameView E s t := by
  refine ⟨hbindings, hdatum _, fun {u} ⟨x, v, hv, hu⟩ => ?_⟩
  exact displayUpTo_of_datum _ fun w hw => hdatum w ⟨x, v, hv, hw.trans hu⟩

/-! ## Changes to the storage of a frame -/

/-- What is done with the storage that is seen in a frame `E`, and assignments there that bring in nothing that is seen
in the frame `F`. New objects and frames may be added, and other frames may be changed. -/
inductive Change (E F : FrameId) : Store → Store → Prop
  | step {s : Store} {id : ObjectId} {n : Int64} (m : Int64) : s.Seen E (.ref id) →
      s.datum (.ref id) = .object (.integer n) → Change E F s (s.write id (.integer m))
  | remove {s : Store} {id : ObjectId} {entries : List HashEntry} (content : HashKey) : s.Seen E (.ref id) →
      s.datum (.ref id) = .object (.hash entries) → Change E F s (s.write id (.hash (Entries.erase content entries)))
  | assign {s : Store} {D : FrameId} (x : String) {v : Value} : D ≠ F → s.HasValue v →
      (D = E → ∀ u, s.Inside u v → s.IsStorage u → ¬s.Seen F u) → Change E F s (s.set D x v)
  | object {s : Store} {o : Object} : s.known.Object o → Change E F s (s.alloc o).2
  | frame {s : Store} {f : Frame} : (∀ P, f.parent = some P → s.HasFrame P) → (∀ b ∈ f.bindings, s.HasValue b.2) →
      f.bindings.names.Nodup → Change E F s (s.newFrame f).2

theorem Change.wellFormed (h : Change E F s t) (hs : s.WellFormed) : t.WellFormed := by
  cases h with
  | step m _ ho => exact hs.writeInteger ho m
  | remove content _ ho => exact hs.erase ho content
  | assign x _ hv _ => exact hs.set x hv
  | object ho => exact hs.alloc ho
  | frame hparent hbindings hnames => exact hs.newFrame hparent hbindings hnames

/-- Assignments in other frames are not seen. -/
theorem SameView.set (h : E ≠ F) (x : String) (v : Value) : SameView F s (s.set E x v) :=
  .of_datum (bindings_set_of_ne h) fun _ _ => rfl

/-- What is done with the storage of the one of two separate frames is not seen in the other. -/
theorem Change.sameView (h : Change E F s t) (hs : s.WellFormed) (hsep : s.Separate E F) : SameView F s t := by
  have hwrite {id : ObjectId} {o p : Object} (hE : s.Seen E (.ref id)) (ho : s.datum (.ref id) = .object o)
      (hstorage : o.IsStorage) : SameView F s (s.write id p) := by
    refine .of_datum rfl fun u hu => datum_write_of_ne ?_
    rintro rfl
    exact hsep.storage ⟨o, ho, hstorage⟩ hE hu
  cases h with
  | step m hE ho => exact hwrite hE ho trivial
  | remove content hE ho => exact hwrite hE ho trivial
  | assign x hD _ _ => exact .set hD x _
  | object => exact .of_datum rfl fun u hu => datum_alloc (hs.hasValue_seen hu)
  | frame => exact .of_datum (bindings_newFrame hsep.right) fun _ _ => rfl

/-! ## Separate frames stay separate -/

/-- Frames stay separate when no storage comes to be seen in one that is seen in the other. -/
theorem Separate.later (h : s.Separate E F) (hE : t.HasFrame E) (hF : t.HasFrame F)
    (hleft : ∀ u, t.IsStorage u → t.Seen E u → s.IsStorage u ∧ s.Seen E u ∨ ¬s.Seen F u)
    (hright : ∀ u, t.Seen F u → s.Seen F u) : t.Separate E F := by
  refine ⟨hE, hF, h.ne, fun {u} hu hseen hseen' => ?_⟩
  rcases hleft u hu hseen with ⟨hu, hseen⟩ | hnot
  · exact h.storage hu hseen (hright u hseen')
  · exact hnot (hright u hseen')

/-- Nothing comes to be inside of a value when parts are only taken away. -/
theorem Inside.mono (h : t.Inside u v) (hparts : ∀ u v, t.IsPart u v → s.IsPart u v) : s.Inside u v :=
  Relation.ReflTransGen.mono hparts _ _ h

theorem isPart_write (ho : s.datum (.ref id) = .object o) (hparts : ∀ v ∈ p.parts, v ∈ o.parts)
    (h : (s.write id p).IsPart u v) : s.IsPart u v := by
  obtain ⟨q, hq, hu⟩ := h
  rcases datum_write_cases hq with ⟨rfl, rfl⟩ | ⟨_, hq⟩
  · exact ⟨o, ho, hparts u hu⟩
  · exact ⟨q, hq, hu⟩

theorem seen_write (ho : s.datum (.ref id) = .object o) (hparts : ∀ v ∈ p.parts, v ∈ o.parts)
    (h : (s.write id p).Seen E u) : s.Seen E u := by
  obtain ⟨x, v, hv, hu⟩ := h
  exact ⟨x, v, hv, hu.mono fun _ _ => isPart_write ho hparts⟩

/-- Frames stay separate when an object is written over by one that has no other parts. -/
theorem Separate.write (h : s.Separate E F) (ho : s.datum (.ref id) = .object o) (hstorage : o.IsStorage)
    (hparts : ∀ v ∈ p.parts, v ∈ o.parts) : (s.write id p).Separate E F := by
  refine h.later h.left h.right (fun u hu hE => .inl ⟨?_, seen_write ho hparts hE⟩) fun u => seen_write ho hparts
  obtain ⟨q, hq, hqs⟩ := hu
  rcases datum_write_cases hq with ⟨rfl, rfl⟩ | ⟨_, hq⟩
  · exact ⟨o, ho, hstorage⟩
  · exact ⟨q, hq, hqs⟩

/-- Frames stay separate when nothing is assigned in `F`, and nothing in `E` that brings in storage of `F`. -/
theorem Separate.set {D : FrameId} (h : s.Separate E F) (hD : D ≠ F) (x : String)
    (hv : D = E → ∀ u, s.Inside u v → s.IsStorage u → ¬s.Seen F u) : (s.set D x v).Separate E F := by
  refine h.later (hasFrame_set.2 h.left) (hasFrame_set.2 h.right) (fun u hu hseen => ?_) fun u hseen => ?_
  · obtain ⟨y, w, hw, hu'⟩ := hseen
    rcases mem_bindings_set hw with ⟨rfl, heq⟩ | hw
    · cases heq
      exact .inr (hv rfl u hu' hu)
    · exact .inl ⟨hu, y, w, hw, hu'⟩
  · obtain ⟨y, w, hw, hu⟩ := hseen
    rw [bindings_set_of_ne hD] at hw
    exact ⟨y, w, hw, hu⟩

/-- A new object is inside of no value that was there. -/
theorem inside_alloc (hs : s.WellFormed) (h : (s.alloc o).2.Inside u v) (hv : s.HasValue v) : s.Inside u v := by
  induction h using Relation.ReflTransGen.head_induction_on with
  | refl => exact .refl
  | head hpart _ ih =>
    obtain ⟨p, hp, hu⟩ := hpart
    rw [datum_alloc (hs.hasValue_inside ih hv)] at hp
    exact .head ⟨p, hp, hu⟩ ih

theorem Separate.alloc (h : s.Separate E F) (hs : s.WellFormed) : (s.alloc o).2.Separate E F := by
  have hseen (D : FrameId) (u : Value) (hu : (s.alloc o).2.Seen D u) : s.Seen D u := by
    obtain ⟨x, v, hv, hu⟩ := hu
    exact ⟨x, v, hv, inside_alloc hs hu (hs.binding hv)⟩
  refine h.later h.left h.right (fun u hu hE => .inl ⟨?_, hseen E u hE⟩) (hseen F)
  obtain ⟨q, hq, hstorage⟩ := hu
  rw [datum_alloc (hs.hasValue_seen (hseen E u hE))] at hq
  exact ⟨q, hq, hstorage⟩

theorem Separate.newFrame {f : Frame} (h : s.Separate E F) : (s.newFrame f).2.Separate E F := by
  have hseen {D : FrameId} (hD : s.HasFrame D) (u : Value) (hu : (s.newFrame f).2.Seen D u) : s.Seen D u := by
    obtain ⟨x, v, hv, hu⟩ := hu
    rw [bindings_newFrame hD] at hv
    exact ⟨x, v, hv, hu⟩
  exact h.later (hasFrame_newFrame h.left) (hasFrame_newFrame h.right) (fun u hu hE => .inl ⟨hu, hseen h.left u hE⟩)
    (hseen h.right)

theorem Change.separate (h : Change E F s t) (hs : s.WellFormed) (hsep : s.Separate E F) : t.Separate E F := by
  cases h with
  | step m _ ho => exact hsep.write ho trivial nofun
  | @remove id entries content _ ho =>
    refine hsep.write ho trivial fun v hv => ?_
    obtain ⟨e, he, hv⟩ := Object.mem_parts_hash hv
    have he : e ∈ entries := (List.mem_filter.1 he).1
    rcases hv with rfl | rfl
    · exact Object.key_mem_parts he
    · exact Object.value_mem_parts he
  | assign x hD _ hv => exact hsep.set hD x hv
  | object => exact hsep.alloc hs
  | frame => exact hsep.newFrame

/-! ## Operations of the evaluator -/

/-- `x++` and `x--` change an integer that is seen in a frame, wherever the name is bound to it. -/
theorem step_change {G : FrameId} (hx : s.get? G x = some v) (hv : s.Seen E v) (up : Bool) :
    (∃ e, Eval.step x up G s = .error (.failed e) s) ∨ ∃ t, Eval.step x up G s = .ok v t ∧ Change E F s t := by
  rcases Eval.step_cases x up G s with herror | ⟨id, n, m, hget, hn, hstep⟩
  · exact .inl herror
  · cases hget.symm.trans hx
    exact .inr ⟨_, hstep, .step m hv hn⟩

/-- What `remove` does with a value that is seen in a frame. -/
theorem WellFormed.removeFrom_change (hs : s.WellFormed) (hv : s.Seen E v) (key : Value) :
    (∃ e, Builtin.removeFrom v key s = .error (.failed e) s) ∨
      ∃ a t, Builtin.removeFrom v key s = .ok a t ∧ Change E F s t := by
  rcases Builtin.removeFrom_cases v key s with
    herror | ⟨us, n, hd, -, hremove⟩ | ⟨id, entries, c, rfl, hd, -, -, hremove⟩
  · exact .inl herror
  · refine .inr ⟨_, _, hremove, .object fun u hu => ?_⟩
    exact hs.hasValue_part hd (List.mem_of_mem_eraseIdx hu)
  · exact .inr ⟨_, _, hremove, .remove c hv hd⟩

/-- An assignment gives a new value to a name that is bound. -/
theorem update?_change {G : FrameId} (h : s.update? G x v = some t) (hv : s.HasValue v) (hF : s.binder? G x ≠ some F)
    (hE : s.binder? G x = some E → ∀ u, s.Inside u v → s.IsStorage u → ¬s.Seen F u) : Change E F s t := by
  obtain ⟨D, hD, rfl⟩ := Option.map_eq_some_iff.1 h
  exact .assign x (fun heq => hF (heq ▸ hD)) hv fun heq => hE (heq ▸ hD)

/-- What is done with the storage that is seen in `E` is a change there: `x++` and `x--` of a name that is bound to such
a value, `remove` of such a value, and assignments outside of `F` that bring nothing into `E` that is seen in `F`. Where
they fail the store is what it was. -/
structure Operates (E F : FrameId) (s : Store) : Prop where
  step {G : FrameId} {x : String} {v : Value} (up : Bool) : s.get? G x = some v → s.Seen E v →
    (∃ e, Eval.step x up G s = .error (.failed e) s) ∨ ∃ t, Eval.step x up G s = .ok v t ∧ Change E F s t
  remove {v : Value} (key : Value) : s.Seen E v →
    (∃ e, Builtin.remove.call [v, key] s = .error (.failed e) s) ∨
      ∃ a t, Builtin.remove.call [v, key] s = .ok a t ∧ Change E F s t
  assign {G : FrameId} {x : String} {v : Value} {t : Store} : s.update? G x v = some t → s.HasValue v →
    s.binder? G x ≠ some F → (s.binder? G x = some E → ∀ u, s.Inside u v → s.IsStorage u → ¬s.Seen F u) →
      Change E F s t

/-- In every state the operations of the evaluator are changes, for any two frames. -/
theorem WellFormed.operates (hs : s.WellFormed) (E F : FrameId) : s.Operates E F where
  step up hx hv := step_change hx hv up
  remove key hv := hs.removeFrom_change hv key
  assign := update?_change

/-! ## New instances -/

/-- What is inside of a copy is a copy. -/
theorem IsCopy.part (h : s.IsCopy t v v') (hst : Kept s t) {u' : Value} (hu : t.IsPart u' v') :
    ∃ u, s.IsCopy t u u' := by
  obtain ⟨o, ho, hu⟩ := hu
  cases h with
  | same hv hnot =>
    rw [hst.datum hv] at ho
    cases o with
    | array | hash => exact (hnot ⟨_, ho, trivial⟩).elim
    | _ => cases hu
  | integer _ _ hd =>
    rw [hd] at ho
    cases ho
    cases hu
  | @array _ _ us us' _ _ hd hlength hcopies =>
    rw [hd] at ho
    cases ho
    have hall : List.Forall₂ (s.IsCopy t) us us' := List.forall₂_iff_zip.2 ⟨hlength.symm, fun hp => hcopies _ hp⟩
    obtain ⟨u, -, hcopy⟩ := exists_of_forall₂ hall.flip hu
    exact ⟨u, hcopy⟩
  | @hash _ _ entries entries' _ _ hd hlength hcontents hkeys hvalues =>
    rw [hd] at ho
    cases ho
    have hall : List.Forall₂ (s.IsCopiedEntry t) entries entries' :=
      List.forall₂_iff_zip.2 ⟨hlength.symm, fun hp => ⟨hcontents _ hp, hkeys _ hp, hvalues _ hp⟩⟩
    obtain ⟨e', he', hu⟩ := Object.mem_parts_hash hu
    obtain ⟨e, -, hcopy⟩ := exists_of_forall₂ hall.flip he'
    rcases hu with rfl | rfl
    · exact ⟨e.key, hcopy.key⟩
    · exact ⟨e.value, hcopy.value⟩

theorem IsCopy.inside (h : s.IsCopy t v v') (hst : Kept s t) (hu : t.Inside u v') : ∃ w, s.IsCopy t w u := by
  induction hu using Relation.ReflTransGen.head_induction_on with
  | refl => exact ⟨v, h⟩
  | head hpart _ ih =>
    obtain ⟨w, hw⟩ := ih
    exact hw.part hst hpart

/-- Storage that is a copy is new. -/
theorem IsCopy.not_hasValue (h : s.IsCopy t v v') (hst : Kept s t) (hv : t.IsStorage v') : ¬s.HasValue v' := by
  cases h with
  | same hv' hnot =>
    obtain ⟨o, ho, hstorage⟩ := hv
    rw [hst.datum hv'] at ho
    exact fun _ => hnot ⟨o, ho, hstorage⟩
  | integer _ hnew | array _ hnew | hash _ hnew => exact hnew

/-- Each value that an instance binds stands for one that the frame binds. -/
theorem IsInstance.exists_own (h : s.IsInstance T I t) (hs : s.WellFormed) (hv : (x, v') ∈ t.bindings I) :
    ∃ v, (x, v) ∈ s.bindings T ∧ s.IsOwn t T I v v' := by
  have hx : x ∈ (s.bindings T).names := h.names ▸ List.mem_map_of_mem (f := Prod.fst) hv
  obtain ⟨⟨y, v⟩, hb, rfl⟩ := List.mem_map.1 hx
  obtain ⟨w, hw, hown⟩ := h.binding hb
  have hnodup : (t.bindings I).names.Nodup := h.names ▸ hs.names T
  cases (lookup_of_mem hnodup hw).symm.trans (lookup_of_mem hnodup hv)
  exact ⟨v, hb, hown⟩

/-- The storage that is seen in the frame of an instance is new. -/
theorem IsInstance.not_hasValue (h : s.IsInstance T I t) (hs : s.WellFormed) (hu : t.Seen I u)
    (hstorage : t.IsStorage u) : ¬s.HasValue u := by
  obtain ⟨x, v', hv', hu⟩ := hu
  obtain ⟨v, -, hown⟩ := h.exists_own hs hv'
  cases hown with
  | method _ _ hd =>
    -- functions have nothing inside, and are no storage
    obtain ⟨o, ho, hstorage⟩ := hstorage
    rcases Relation.ReflTransGen.cases_tail_iff _ _ _ |>.1 hu with rfl | ⟨w, -, p, hp, hw⟩
    · rw [hd] at ho
      cases ho
      exact hstorage.elim
    · rw [hd] at hp
      cases hp
      cases hw
  | copy _ hcopy =>
    obtain ⟨w, hw⟩ := hcopy.inside h.kept hu
    exact hw.not_hasValue h.kept hstorage

/-- What is seen in a frame that was there is seen there still, and nothing else is. -/
theorem seen_of_kept (hst : Kept s t) (hs : s.WellFormed) (hT : s.HasFrame T) (hu : t.Seen T u) : s.HasValue u := by
  obtain ⟨x, v, hv, hu⟩ := hu
  have hbindings : t.bindings T = s.bindings T := by rw [bindings, bindings, hst.frame hT id]
  rw [hbindings] at hv
  induction hu using Relation.ReflTransGen.head_induction_on with
  | refl => exact hs.binding hv
  | head hpart _ ih =>
    obtain ⟨o, ho, hmem⟩ := hpart
    rw [hst.datum ih] at ho
    exact hs.hasValue_part ho hmem

theorem IsInstance.separate (h : s.IsInstance T I t) (hs : s.WellFormed) (hT : s.HasFrame T) : t.Separate I T where
  left := h.has
  right := h.kept.has (p := .frame T) hT
  ne := by
    rintro rfl
    exact h.new hT
  storage hstorage hI hF := h.not_hasValue hs hI hstorage (seen_of_kept h.kept hs hT hF)

/-- What is reached by changes on either side. -/
def Changes (E F : FrameId) : Store → Store → Prop :=
  Relation.ReflTransGen fun s t => Change E F s t ∨ Change F E s t

theorem Changes.separate (h : Changes E F s t) (hs : s.WellFormed) (hsep : s.Separate E F) :
    t.WellFormed ∧ t.Separate E F := by
  induction h with
  | refl => exact ⟨hs, hsep⟩
  | tail _ hchange ih =>
    obtain ⟨hs, hsep⟩ := ih
    rcases hchange with hchange | hchange
    · exact ⟨hchange.wellFormed hs, hchange.separate hs hsep⟩
    · exact ⟨hchange.wellFormed hs, (hchange.separate hs hsep.symm).symm⟩

theorem WellFormed.instanceFrame (hs : s.WellFormed) (hT : s.HasFrame T) : (instanceFrame T s).2.WellFormed := by
  have hstores : (Invariant.wellFormed.toSimulation []).stores s s s := ⟨rfl, rfl, hs⟩
  have hframe : ((Invariant.wellFormed.toSimulation []).matching s).frame T T := ⟨rfl, hT⟩
  obtain ⟨_, _, ⟨rfl, _, ht⟩, _⟩ := Simulation.Carries.instanceFrame hframe hstores
  exact ht

end Store

open Store

/-- **Instances are detached.** In every reachable state, an instance of a frame binds the names of the frame in a new
frame around which there is nothing: integers, arrays and hashes are new at every depth and hold what theirs hold,
functions that were made in the frame are made anew in the new one, all other values are the same objects, and nothing
that was there has changed. No storage is seen in both frames, then and after any steps, removals and assignments
that do not bind the storage of the one in the other; none of these is seen in the other frame, and no assignment is.
The steps and removals of the evaluator, and its assignments of such values, are changes of this kind. -/
theorem Reachable.instance_detached {s : Store} (h : Reachable s) {T : FrameId} (hT : s.HasFrame T) :
    ∃ I t, instanceFrame T s = (I, t) ∧ s.IsInstance T I t ∧ t.Separate I T ∧ ∀ u, Changes I T t u →
      u.Separate I T ∧ (∀ w, Change I T u w → SameView T u w) ∧ (∀ w, Change T I u w → SameView I u w) ∧
      (∀ x v, SameView T u (u.set I x v) ∧ SameView I u (u.set T x v)) ∧ u.Operates I T ∧ u.Operates T I := by
  have hs := h.wellFormed
  have hinstance := hs.instanceFrame_isInstance T
  have hsep := hinstance.separate hs hT
  refine ⟨_, _, rfl, hinstance, hsep, fun u hu => ?_⟩
  obtain ⟨hu, hsepu⟩ := hu.separate (hs.instanceFrame hT) hsep
  exact ⟨hsepu, fun w hw => hw.sameView hu hsepu, fun w hw => hw.sameView hu hsepu.symm,
    fun x v => ⟨.set hsepu.ne x v, .set hsepu.ne.symm x v⟩, hu.operates _ T, hu.operates T _⟩

/-- The store after `class C { var n = 1; var a = [2, {3: n}]; func f() { return n; } }`. -/
def nesting : Store :=
  (Outcome.of (Eval.program (Eval.expr (Library.ofUnits []) 5)
    [.classDecl ⟨"C", [⟨"n", .integer 1⟩, ⟨"a", .array [.integer 2, .hash [⟨.integer 3, .name "n"⟩]]⟩],
      [⟨"f", ⟨[], [.ret (.name "n")]⟩, false⟩], none⟩] Session.start.frame) Session.start.store).2

theorem nesting_detached : Reachable nesting ∧ nesting.HasFrame ⟨1⟩ ∧ ∃ I t, instanceFrame ⟨1⟩ nesting = (I, t) ∧
    nesting.IsInstance ⟨1⟩ I t ∧ t.Separate I ⟨1⟩ ∧ I = ⟨2⟩ ∧
    (t.bindings I).map (fun b => t.display b.2) = ["1", "[2, {3: 1}]", "func() {return n;}"] := by
  have hreach : Reachable nesting := Reachable.program .start _ _ _
  have hframe : 1 < nesting.frames.size := by decide +kernel
  obtain ⟨I, t, hmake, hinstance, hsep, -⟩ := hreach.instance_detached hframe
  refine ⟨hreach, hframe, I, t, hmake, hinstance, hsep, ?_⟩
  cases hmake
  exact ⟨by decide +kernel, by decide +kernel⟩

end Pron
