import Pron.Proofs.Reserved.Evaluation

/-!
# Constructors in sessions

A session may be given any sources, with errors or without, and may find any units. In the states that it reaches
(`SourceReachable`), constructors are bound to `Init`, in frames of classes and instances, and are found nowhere else;
no expression has one for its value, and what is bound to `Init` is never found to be something else (`init_reserved`).
It matters that programs are read from sources: a tree could well hold the word `Init` where a name belongs.
-/

namespace Pron

/-- The states that the sources given to a session reach. As in `Reachable`, a program may be stopped in the middle. -/
inductive SourceReachable : Store → Prop
  | start : SourceReachable Session.start.store
  | run {s : Store} (library : Library) (stop : List Value → Expr → FrameId → Store → Bool) (n : Nat)
      (source : String) :
      SourceReachable s → SourceReachable
        (Outcome.of
          (Eval.program (Eval.exprUntil library stop n []) (parseSource source).program Session.start.frame) s).2

namespace SourceReachable

variable {s : Store}

theorem program (h : SourceReachable s) (library : Library) (n : Nat) (source : String) :
    SourceReachable
      (Outcome.of (Eval.program (Eval.expr library n) (parseSource source).program Session.start.frame) s).2 :=
  Eval.exprUntil_never library n [] ▸ h.run library (fun _ _ _ _ => false) n source

/-- A source that is run in a session leaves it in a state that sources reach. -/
theorem session {session : Session} (h : SourceReachable session.store) (hframe : session.frame = Session.start.frame)
    (library : Library) (source : String) :
    SourceReachable (session.run library (parseSource source).program).2.store := by
  have hrun := h.program library Session.depth source
  rw [← hframe] at hrun
  exact hrun

theorem reachable (h : SourceReachable s) : Reachable s := by
  induction h with
  | start => exact .start
  | run library stop n source _ ih => exact .run library stop (fun _ _ _ _ h => by cases h) n _ ih

end SourceReachable

/-! ## Outcomes -/

/-- An outcome that gives no constructor, and is not the error of a constructor that is none. -/
def Outcome.Unreserved (s : Store) : Outcome → Prop
  | .value v | .returned v => ¬ s.IsConstructor v
  | .failed e => ∀ className, e ≠ .notAConstructor className
  | .tooDeep => True

theorem Eval.Keeps.outcome {s : Store} {x : Eval Value} (hx : Eval.Keeps s Store.Ordinary x) (hs : s.Reserved) :
    (Outcome.of x s).2.Reserved ∧ (Outcome.of x s).1.Unreserved (Outcome.of x s).2 := by
  have h := hx hs
  unfold Outcome.of
  cases hr : x s with
  | ok v t =>
    rw [hr] at h
    exact ⟨h.1, h.2.2.2⟩
  | error stop t =>
    rw [hr] at h
    cases stop with
    | returned v => exact ⟨h.1, h.2.2.2⟩
    | failed e => exact ⟨h.1, h.2.2⟩
    | tooDeep => exact ⟨h.1, trivial⟩

/-! ## Sessions -/

/-- At the start there is nothing but a frame without names. -/
theorem Store.reserved_start : Session.start.store.Reserved := by
  have hno {v : Value} {o : Object} : Session.start.store.datum v ≠ .object o := by
    intro h
    cases v with
    | null | boolean => cases h
    | ref id => cases hasValue_of_datum h
  refine ⟨fun h => (hno h).elim, fun h => (hno h).elim, fun {E b} h => ?_, Nat.one_pos, nofun⟩
  obtain ⟨_ | n⟩ := E
  · cases h
  · simp [bindings, Session.start, newRoot, newFrame, empty] at h

theorem SourceReachable.reserved {s : Store} (h : SourceReachable s) : s.Reserved := by
  induction h with
  | start => exact Store.reserved_start
  | run library stop n source _ ih =>
    have hkeeper := Eval.keeper_exprUntil library stop n []
    exact ((Eval.Keeps.program hkeeper (parseSource_names source) Session.start.frame).outcome ih).1

/-- **Constructors are reserved.** In every state that sources reach, also in the middle of a program and after errors:
what is bound to `Init` is a constructor and is bound in the frame of a class or an instance; nothing else that is
bound, and no element of an array, key or value of a hash is a constructor. The texts of functions and constructors, and
sources, mention names only; and texts that do so come to no constructor, and never find that what is bound to `Init` is
none. -/
theorem init_reserved {s : Store} (h : SourceReachable s) :
    (∀ E x v, (x, v) ∈ s.bindings E → (x = Eval.initName ↔ s.IsConstructor v) ∧ (x = Eval.initName → s.IsOwner E)) ∧
    (∀ v o, s.datum v = .object o → (∀ u ∈ o.parts, ¬ s.IsConstructor u) ∧ NamesAre IsName o.mentions) ∧
    (∀ source, NamesAre IsName (blockMentions (parseSource source).program)) ∧
    ∀ (library : Library) (stop : List Value → Expr → FrameId → Store → Bool) (n : Nat) (keys : List Value)
      (E : FrameId),
      (∀ e, NamesAre IsName e.mentions →
        let r := Outcome.of (Eval.exprUntil library stop n keys e E) s
        r.1.Unreserved r.2) ∧
      ∀ source,
        let r := Outcome.of (Eval.program (Eval.exprUntil library stop n keys) (parseSource source).program E) s
        r.1.Unreserved r.2 := by
  have hs := h.reserved
  refine ⟨fun E x v hb => ?_, fun v o ho => ⟨fun u hu => (hs.part ho hu).2, hs.text ho⟩, parseSource_names, ?_⟩
  · obtain ⟨hproper, howner⟩ := hs.binding hb
    refine ⟨?_, howner⟩
    rcases hproper with ⟨hx, -, hv⟩ | ⟨hx, hv⟩
    · exact ⟨fun hinit => absurd (hinit ▸ hx) not_isName_initName, fun hconstructor => absurd hconstructor hv⟩
    · exact ⟨fun _ => hv, fun _ => hx⟩
  · intro library stop n keys E
    have hkeeper := Eval.keeper_exprUntil library stop n keys
    refine ⟨fun e he => ((hkeeper s e E he).outcome hs).2, fun source => ?_⟩
    exact ((Eval.Keeps.program hkeeper (parseSource_names source) E).outcome hs).2

/-- The store in the middle of a source with an error, when an object was made and another is an element of an array
that is still being made. -/
def constructing : Store :=
  (Outcome.of (Eval.program (Eval.exprUntil (Library.ofUnits []) (fun _ e _ _ => e matches .text _) 6 [])
    (parseSource "class C { var n = 1; Init(this.n) { } } var c = new C(2); [new C(3), \"here\"]; c = ").program
    Session.start.frame) Session.start.store).2

theorem constructing_reserved :
    SourceReachable constructing ∧
      ("Init", .ref ⟨1⟩) ∈ constructing.bindings ⟨4⟩ ∧
      constructing.IsConstructor (.ref ⟨1⟩) ∧ constructing.IsOwner ⟨4⟩ ∧
      NamesAre IsName (Expr.new "C" [.integer 4]).mentions ∧
      ∀ n E,
        let r := Outcome.of (Eval.exprUntil (Library.ofUnits []) (fun _ _ _ _ => false) n [] (.new "C" [.integer 4]) E)
          constructing
        r.1.Unreserved r.2 := by
  have hreach : SourceReachable constructing := .run _ _ _ _ .start
  have hbound : ("Init", .ref ⟨1⟩) ∈ constructing.bindings ⟨4⟩ := by decide +kernel
  have hC : IsName "C" := ⟨rfl, 'C', [], rfl, by decide, nofun⟩
  have hnames : NamesAre IsName (Expr.new "C" [.integer 4]).mentions := by simp [hC]
  obtain ⟨hbindings, -, -, heval⟩ := init_reserved hreach
  obtain ⟨hinit, howner⟩ := hbindings _ _ _ hbound
  exact ⟨hreach, hbound, hinit.1 rfl, howner rfl, hnames, fun n E => (heval _ _ n [] E).1 _ hnames⟩

end Pron
