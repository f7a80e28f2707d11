import Pron.Proofs.Computation
import Pron.Proofs.Receiver.Semantics

/-!
# Keeping track of receivers

A frame is within the receiver for which the text in it is evaluated: going from frame to parent one comes to it
(`Store.Within`). The account of receivers is right when the frame of every function is within the receiver for which
the function was made (`Receiver.State.Tracks`). It stays right while no function and no instance is made and frames
keep their parents (`Store.Calm`), as with all that the evaluator does to a store on its own (`Eval.Still`).
-/

namespace Pron

/-! ## Frames within a receiver -/

namespace Store

variable {s t : Store} {R E : FrameId} {v : Value} {id : ObjectId} {o p : Object}

/-- A frame from which one comes to `R` by going to the older parent again and again. -/
inductive Within (s : Store) (R : FrameId) : FrameId → Prop
  | self : s.HasFrame R → s.parent? R = none → Within s R R
  | child {E P : FrameId} : s.HasFrame E → s.parent? E = some P → P.index < E.index → Within s R P → Within s R E

namespace Within

theorem hasFrame (h : s.Within R E) : s.HasFrame E := by
  cases h with
  | self hR => exact hR
  | child hE => exact hE

theorem hasFrame_receiver (h : s.Within R E) : s.HasFrame R := by
  induction h with
  | self hR => exact hR
  | child _ _ _ _ ih => exact ih

/-- The outermost of the frames around a frame is its receiver. -/
theorem getLastD_chainUpTo (h : s.Within R E) {n : Nat} (hn : E.index ≤ n) (D : FrameId) :
    (s.chainUpTo n E).getLastD D = R := by
  induction h generalizing n D with
  | self _ hroot =>
    rw [chainUpTo_of_root hroot]
    rfl
  | @child E P _ hP hlt _ ih =>
    obtain ⟨m, rfl⟩ : ∃ m, n = m + 1 := ⟨n - 1, by omega⟩
    unfold chainUpTo
    rw [hP]
    exact List.getLastD_cons.trans (ih (by omega) E)

/-- The receiver is the root. -/
theorem root_eq (h : s.Within R E) : s.root E = R := h.getLastD_chainUpTo (Nat.le_refl _) E

/-- Frames that keep their parents stay within the same receiver. -/
theorem mono (h : s.Within R E) (hst : ∀ F, s.HasFrame F → t.HasFrame F ∧ t.parent? F = s.parent? F) :
    t.Within R E := by
  induction h with
  | self hR hroot => exact .self (hst _ hR).1 ((hst _ hR).2.trans hroot)
  | child hE hP hlt _ ih => exact .child (hst _ hE).1 ((hst _ hE).2.trans hP) hlt ih

theorem alloc (h : s.Within R E) (o : Object) : (s.alloc o).2.Within R E := h.mono fun _ hF => ⟨hF, rfl⟩

/-- A new frame changes nothing within a receiver. -/
theorem newFrame (h : s.Within R E) (f : Frame) : (s.newFrame f).2.Within R E :=
  h.mono fun _ hF => ⟨hasFrame_newFrame hF, parent?_newFrame hF⟩

/-- A new frame is within the receiver of the frame around it. -/
theorem newChild (h : s.Within R E) : (s.newChild E).2.Within R (s.newChild E).1 :=
  .child hasFrame_newFrame_self parent?_newFrame_self h.hasFrame (h.newFrame _)

/-- A frame around which there is nothing is its own receiver. -/
theorem newRoot (f : Frame) (hf : f.parent = none) : (s.newFrame f).2.Within (s.newFrame f).1 (s.newFrame f).1 :=
  .self hasFrame_newFrame_self (parent?_newFrame_self.trans hf)

end Within

end Store

/-! ## Stores in which nothing was placed -/

namespace Store

variable {s t u : Store}

/-- What can become of a store without that a function or an instance is made. -/
structure Calm (s t : Store) : Prop where
  frames (F : FrameId) : s.HasFrame F → t.HasFrame F ∧ t.parent? F = s.parent? F
  placed (v : Value) : t.placed? v = s.placed? v

namespace Calm

/-- Changes of plain data are calm. -/
theorem of_outline (h : t.outline = s.outline) : s.Calm t := by
  obtain ⟨hframes, -, hplaced⟩ := outline_eq_iff.1 h
  refine ⟨fun F hF => ⟨?_, parent?_congr hframes⟩, congrFun hplaced⟩
  unfold HasFrame
  rw [hframes]
  exact hF

theorem trans (h : s.Calm t) (h' : t.Calm u) : s.Calm u where
  frames F hF :=
    have ⟨hF', hP⟩ := h.frames F hF
    have ⟨hF'', hP'⟩ := h'.frames F hF'
    ⟨hF'', hP'.trans hP⟩
  placed v := (h'.placed v).trans (h.placed v)

theorem set (s : Store) (E : FrameId) (x : String) (v : Value) : s.Calm (s.set E x v) :=
  ⟨fun _ hF => ⟨hasFrame_set.2 hF, parent?_set⟩, fun _ => rfl⟩

theorem newFrame (s : Store) (f : Frame) : s.Calm (s.newFrame f).2 :=
  ⟨fun _ hF => ⟨hasFrame_newFrame hF, parent?_newFrame hF⟩, fun _ => rfl⟩

theorem withLogs (s : Store) (printed : String) (requests : List String) : s.Calm (s.withLogs printed requests) :=
  ⟨fun _ hF => ⟨hF, rfl⟩, fun _ => rfl⟩

end Calm

/-- The copy of a frame is a new root. -/
theorem copyFrame_calm (T : FrameId) (s : Store) :
    s.Calm (copyFrame T s).2 ∧ (copyFrame T s).2.Within (copyFrame T s).1 (copyFrame T s).1 :=
  ⟨.trans (.of_outline (outline_copyBindings (s.bindings T) s)) (.newFrame _ _), .newRoot _ rfl⟩

end Store

/-! ## Evaluations that make no functions -/

namespace Eval

variable {α : Type} {s : Store}

/-- An evaluation that makes no function and no instance. -/
def Still (s : Store) (x : Eval α) : Prop := s.Calm (finalStore (x s))

/-- Computing makes none. -/
theorem Computes.still {x : Eval α} (h : Computes s x) : Still s x := .of_outline h

namespace Still

theorem change {f : Store → Store} (h : s.Calm (f s)) : Still s (modify f : Eval Unit) := h

theorem bindName (E : FrameId) (x : String) (v : Value) : Still s (Eval.bind E x v) := Store.Calm.set s E x v

end Still

end Eval

/-! ## The account of receivers -/

namespace Receiver

namespace State

variable {σ τ υ : State} {R E : FrameId} {t : Store} {o : Object}

/-- The account of receivers is right: the frame of a function is within the receiver for which it was made. The frame
of an instance is within no other. -/
structure Tracks (σ : State) : Prop where
  function {f : Value} {closure : Closure} : σ.store.datum f = .object (.function closure) →
    σ.store.Within (σ.madeFor f) closure.frame
  object {v : Value} {className : String} {I : FrameId} : σ.store.datum v = .object (.inst className I) →
    σ.store.Within I I

/-- A later state of which the account is right. Frames are within the receivers that they were within before, and
functions stay what they are and are for the receivers for which they were made. -/
structure Leads (σ τ : State) : Prop where
  tracks : τ.Tracks
  within {R E : FrameId} : σ.store.Within R E → τ.store.Within R E
  function {f : Value} {closure : Closure} : σ.store.datum f = .object (.function closure) →
    τ.store.datum f = .object (.function closure) ∧ τ.madeFor f = σ.madeFor f

theorem Leads.trans (h : σ.Leads τ) (h' : τ.Leads υ) : σ.Leads υ where
  tracks := h'.tracks
  within hE := h'.within (h.within hE)
  function hf :=
    have ⟨hf', hR⟩ := h.function hf
    have ⟨hf'', hR'⟩ := h'.function hf'
    ⟨hf'', hR'.trans hR⟩

namespace Tracks

theorem refl (h : σ.Tracks) : σ.Leads σ := ⟨h, id, fun hf => ⟨hf, rfl⟩⟩

/-- Calm changes of the store need no new account. -/
theorem calm (h : σ.Tracks) (ht : σ.store.Calm t) : σ.Leads { σ with store := t } := by
  have hwithin {R E : FrameId} (hE : σ.store.Within R E) : t.Within R E := hE.mono ht.frames
  have hiff {v : Value} {o : Object} (ho : o.isPlaced) : t.datum v = .object o ↔ σ.store.datum v = .object o := by
    have hplaced := congrArg (· = some o) (ht.placed v)
    simpa [Store.placed?_eq_some, ho] using hplaced
  exact ⟨⟨fun hf => hwithin (h.function ((hiff rfl).1 hf)), fun hv => hwithin (h.object ((hiff rfl).1 hv))⟩, hwithin,
    fun hf => ⟨(hiff rfl).2 hf, rfl⟩⟩

/-- A function is made in a frame within the receiver. -/
theorem function_alloc (h : σ.Tracks) {closure : Closure} (hE : σ.store.Within R closure.frame) :
    σ.Leads ⟨(σ.store.alloc (.function closure)).2,
      fun v => if v = (σ.store.alloc (.function closure)).1 then R else σ.madeFor v⟩ := by
  have hold {f : Value} {c : Closure} (hf : σ.store.datum f = .object (.function c)) :
      (if f = (σ.store.alloc (.function closure)).1 then R else σ.madeFor f) = σ.madeFor f := by
    refine if_neg ?_
    rintro rfl
    exact Nat.lt_irrefl _ (Store.hasValue_of_datum hf)
  refine ⟨⟨fun {f c} hf => ?_, fun {v className I} hv => ?_⟩, fun hE => hE.alloc _,
    fun hf => ⟨(Store.datum_alloc (Store.hasValue_of_datum hf)).trans hf, hold hf⟩⟩
  · rcases Store.datum_alloc_cases hf with ⟨rfl, hc⟩ | hf
    · cases hc
      dsimp only
      rw [if_pos rfl]
      exact hE.alloc _
    · dsimp only
      rw [hold hf]
      exact (h.function hf).alloc _
  · rcases Store.datum_alloc_cases hv with ⟨_, ho⟩ | hv
    · cases ho
    · exact (h.object hv).alloc _

/-- An instance is made with a root for its frame. -/
theorem inst_alloc (h : σ.Tracks) (className : String) {I : FrameId} (hI : σ.store.Within I I) :
    σ.Leads { σ with store := (σ.store.alloc (.inst className I)).2 } := by
  refine ⟨⟨fun {f c} hf => ?_, fun {v className' J} hv => ?_⟩, fun hE => hE.alloc _,
    fun hf => ⟨(Store.datum_alloc (Store.hasValue_of_datum hf)).trans hf, rfl⟩⟩
  · rcases Store.datum_alloc_cases hf with ⟨_, hc⟩ | hf
    · cases hc
    · exact (h.function hf).alloc _
  · rcases Store.datum_alloc_cases hv with ⟨_, ho⟩ | hv
    · cases ho
      exact hI.alloc _
    · exact (h.object hv).alloc _

end Tracks

end State

end Receiver

end Pron
