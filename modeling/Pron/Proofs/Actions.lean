import Pron.Proofs.Separable
import Pron.Session

/-!
# Actions on objects

A program makes objects and calls their methods, one statement after the other (`Action`). What can be seen of it is how
each statement ends, what it prints, which units it asks for, and the fields of the objects that it makes (`trace`).

When the classes are separable, no action changes anything that was there before the first one, but for the names of
objects (`Since`): not the classes either, so each object starts like the others.
-/

namespace Pron

/-! ## Actions and what is seen of them -/

/-- What a program does with objects. -/
inductive Action
  | make (x className : String) (arguments : List Expr)
  | call (x method : String) (arguments : List Expr)

/-- What is seen of how an evaluation ended. -/
inductive Seen
  | value (text : String)
  | returned (text : String)
  | failed (message : String)
  | tooDeep
  deriving DecidableEq

/-- What is seen of an action: how it ended, the fields of the object that was made, what was printed and asked for. -/
@[ext]
structure Report where
  outcome : Seen
  fields : List (String × String)
  printed : String
  requests : List String
  deriving DecidableEq

/-- How an evaluation ended, with values shown. -/
def Outcome.seen (s : Store) : Outcome → Seen
  | value v => .value (s.describe v)
  | returned v => .returned (s.describe v)
  | failed e => .failed e.message
  | tooDeep => .tooDeep

/-- The fields of the object of a name, with values shown. -/
def Store.fieldsOf (s : Store) (G : FrameId) (x : String) : List (String × String) :=
  match (s.get? G x).map s.datum with
  | some (.object (.inst _ I)) => (s.bindings I).map fun b => (b.1, s.describe b.2)
  | _ => []

/-- Names that are bound to no object of a class, and to no class. -/
def Store.Free (s : Store) (G : FrameId) (x : String) : Prop :=
  ∀ v name I, s.get? G x = some v → s.datum v ≠ .object (.inst name I)

namespace Action

/-- The statement of an action. -/
def stmt : Action → Stmt
  | make x className arguments => .var x (.new className arguments)
  | call x method arguments => .expr (.methodCall x method arguments)

/-- Whether an action calls a method of the object of a name. -/
def calls (a : String) : Action → Bool
  | make _ _ _ => false
  | call x _ _ => x = a

/-- Runs an action in the frame of a program. -/
def run (library : Library) (n : Nat) (G : FrameId) (action : Action) (s : Store) : Outcome × Store :=
  Outcome.of (Eval.stmt (Eval.expr library n) action.stmt G) s

/-- What is seen of an action that was run. -/
def report (G : FrameId) (action : Action) (r : Outcome × Store) : Report where
  outcome := r.1.seen r.2
  fields :=
    match action, r.1 with
    | make x _ _, .value _ => r.2.fieldsOf G x
    | _, _ => []
  printed := r.2.printed
  requests := r.2.requests

/-- An action on objects that are made by actions: their names are free to begin with, the arguments of constructors are
literals, and the frames of the classes are as required. -/
def Fair (s : Store) (G : FrameId) (required : FrameId → Prop) : Action → Prop
  | make x className arguments => s.Free G x ∧ (∀ e ∈ arguments, e.IsLiteral) ∧
      ∃ v name T, s.get? G className = some v ∧ s.datum v = .object (.inst name T) ∧ required T
  | call x _ _ => s.Free G x

end Action

/-- Actions one after the other, with what is seen of each. -/
def trace (library : Library) (n : Nat) (G : FrameId) : List Action → Store → List (Action × Report)
  | [], _ => []
  | action :: rest, s =>
    let r := action.run library n G (s.withLogs "" [])
    (action, action.report G r) :: trace library n G rest r.2

/-! ## Runs of actions -/

namespace Action

variable {library : Library} {n : Nat} {G : FrameId} {s t : Store} {x className method : String}
  {arguments : List Expr} {v : Value} {stop : Stop}

theorem run_make_ok (h : Eval.expr library n (.new className arguments) G s = .ok v t) :
    (make x className arguments).run library n G s = (.value .null, t.set G x v) := by
  have hstmt : Eval.stmt (Eval.expr library n) (make x className arguments).stmt G s = .ok .null (t.set G x v) :=
    Eval.bind_of_ok h
  unfold run Outcome.of
  rw [hstmt]

theorem run_make_error (h : Eval.expr library n (.new className arguments) G s = .error stop t) :
    (make x className arguments).run library n G s = Outcome.of (throw stop) t := by
  have hstmt : Eval.stmt (Eval.expr library n) (make x className arguments).stmt G s = .error stop t :=
    Eval.bind_of_error h
  unfold run Outcome.of
  rw [hstmt]
  rfl

theorem report_make_value (v : Value) (s : Store) : (make x className arguments).report G (.value v, s) =
    ⟨.value (s.describe v), s.fieldsOf G x, s.printed, s.requests⟩ := rfl

/-- Where there is no object nothing happens. -/
theorem run_call_of_not_object {d : Datum} (hget : s.get? G x = some v) (hv : s.datum v = d)
    (hd : ∀ name I, d ≠ .object (.inst name I)) (library : Library) (n : Nat) (method : String)
    (arguments : List Expr) : (call x method arguments).run library n G s =
      (if n = 0 then .tooDeep else .failed (.notAnObject x d.type), s) := by
  subst hv
  cases n with
  | zero => rfl
  | succ n =>
    have hcall : Eval.stmt (Eval.expr library (n + 1)) (call x method arguments).stmt G s = .error _ s :=
      Eval.bind_of_error (Eval.findMethod_of_not_object hget hd method)
    unfold run Outcome.of
    rw [hcall]
    rfl

theorem of_throw_snd (stop : Stop) (s : Store) : (Outcome.of (throw stop) s).2 = s := by cases stop <;> rfl

end Action

section Trace

variable {library : Library} {n : Nat} {G : FrameId} {actions : List Action} {action : Action} {s : Store}

theorem trace_cons : trace library n G (action :: actions) s =
    (action, action.report G (action.run library n G (s.withLogs "" []))) ::
      trace library n G actions (action.run library n G (s.withLogs "" [])).2 := rfl

/-- What was printed and asked for before is not seen. -/
theorem trace_withLogs (printed : String) (requests : List String) :
    trace library n G actions (s.withLogs printed requests) = trace library n G actions s := by
  cases actions <;> rfl

end Trace

/-! ## Objects that are made -/

section Made

variable {s t : Store} {G T : FrameId} {x y className name : String} {v : Value}

/-- What becomes of a store when an object is made: only its name is bound, and it refers to nothing that was there but
constants. -/
structure Made (G : FrameId) (x : String) (s t : Store) : Prop where
  spared : Spared (fun p => p = .frame G) s t
  closed : Closed (Grown s.Constant s t) False t
  other {y : String} : y ≠ x → t.get? G y = s.get? G y
  object : t.get? G x = s.get? G x ∨ ∃ v name I, t.get? G x = some v ∧ t.datum v = .object (.inst name I) ∧
    Grown s.Constant s t (.frame I)

/-- The class is bound where the object is made. -/
theorem new_ends (hs : s.WellFormed) (hget : s.get? G className = some v) (hv : s.datum v = .object (.inst name T))
    (hT : s.Separable T) {arguments : List Expr} (harguments : ∀ e ∈ arguments, e.IsLiteral) (library : Library)
    (n : Nat) :
    s.fresh.Ends [] s
      (fun t v => s.fresh.known t v ∧ ∃ I, t.datum v = .object (.inst name I) ∧ (s.fresh.guard t).frame I)
      (Eval.expr library n (.new className arguments) G s) := by
  cases n with
  | zero => exact ⟨s.fresh_holds, .refl _ s, trivial⟩
  | succ n =>
    have hnew : Eval.expr library (n + 1) (.new className arguments) G s = _ :=
      Eval.makeInstance_of_class hget hv library (Eval.expr library n) arguments
    rw [hnew]
    exact hT.instantiate hs library n className name harguments G

theorem Action.made (hs : s.WellFormed) (hG : s.HasFrame G) (hroot : s.parent? G = none)
    (hget : s.get? G className = some v) (hv : s.datum v = .object (.inst name T)) (hT : s.Separable T)
    {arguments : List Expr} (harguments : ∀ e ∈ arguments, e.IsLiteral) (library : Library) (n : Nat) (x : String) :
    Made G x s ((Action.make x className arguments).run library n G s).2 := by
  have hends := new_ends hs hget hv hT harguments library n
  cases hr : Eval.expr library n (.new className arguments) G s with
  | ok v t =>
    rw [hr] at hends
    rw [Action.run_make_ok hr]
    obtain ⟨hholds, hlater, hvalue, I, hI, hframe⟩ := hends
    have hkept : Kept s t := Kept.trans_region (.refl _ s) hlater
    have hGt : t.HasFrame G := hkept.has (p := .frame G) hG
    have hroott : t.parent? G = none := (hkept.parent hG).trans hroot
    have hset : Spared (fun p => p = .frame G) t (t.set G x v) := .set (A := fun p => p = .frame G) rfl x
    have hobject := Store.get?_set_of_root (x := x) (v := v) hroott hGt
    refine ⟨(hkept.mono fun _ _ => False.elim).trans hset fun _ _ h => h, hholds.1.grown_set x hvalue, fun hy => ?_, ?_⟩
    · rw [Store.get?_set_of_root_of_ne hroott hGt hy]
      exact hkept.get?_of_root hG hroot (fun h => h) _
    · exact .inr ⟨v, name, I, hobject, hI, hframe.mono fun _ => hset.has⟩
  | error stop t =>
    rw [hr] at hends
    rw [Action.run_make_error hr, Action.of_throw_snd]
    have hkept : Kept s t := Kept.trans_region (.refl _ s) hends.2.1
    have hget (y : String) : t.get? G y = s.get? G y := hkept.get?_of_root hG hroot (fun h => h) y
    exact ⟨hkept.mono fun _ _ => False.elim, hends.1.1, fun _ => hget _, .inl (hget x)⟩

end Made

/-! ## What stays as it was before all actions -/

theorem Action.wellFormed {s : Store} {G : FrameId} (hs : s.WellFormed) (hG : s.HasFrame G) (library : Library)
    (n : Nat) (action : Action) : (action.run library n G s).2.WellFormed := by
  have hrun := Invariant.stmt (fun keys => Invariant.wellFormed_steps keys fun _ _ _ => false) library n [] hs hG
    action.stmt
  rw [Eval.exprUntil_never] at hrun
  exact hrun.outcome.1

/-- A method call keeps a region that the object belongs to. -/
theorem Action.call_region {A : Place → Prop} {constructors : Prop} {s t : Store} {G : FrameId} {x : String}
    (ht : (Invariant.region A constructors s).Holds t)
    (hobject : ∀ v name I, t.get? G x = some v → t.datum v = .object (.inst name I) →
      ((Invariant.region A constructors s).guard t).frame I)
    (library : Library) (n : Nat) (method : String) (arguments : List Expr) :
    (Invariant.region A constructors s).Holds ((call x method arguments).run library n G t).2 ∧
      Spared (Changeable A s) t ((call x method arguments).run library n G t).2 := by
  have hends : (Invariant.region A constructors s).Ends [] t (Invariant.region A constructors s).known
      (Eval.expr library n (.methodCall x method arguments) G t) := by
    cases n with
    | zero => exact ⟨ht, .refl _ t, trivial⟩
    | succ n =>
      have hrecs := Invariant.region_recs A constructors s [] library n
      exact Invariant.callMethod hrecs ht hobject method arguments
  exact hends.outcome

/-- What has become of a store after some actions: nothing has changed but the names of objects, and what was made
refers to nothing that was there but constants. -/
structure Since (s : Store) (G : FrameId) (t : Store) : Prop where
  wellFormed : t.WellFormed
  spared : Spared (fun p => p = .frame G) s t
  closed : Closed (Grown s.Constant s t) False t
  bound {x name : String} {v : Value} {T : FrameId} : s.get? G x = some v → s.datum v = .object (.inst name T) →
    t.get? G x = some v
  object {x : String} : s.Free G x → t.get? G x = s.get? G x ∨ ∃ v name I, t.get? G x = some v ∧
    t.datum v = .object (.inst name I) ∧ Grown s.Constant s t (.frame I)

namespace Since

variable {s t u : Store} {G T : FrameId} {x : String} {v : Value}

theorem refl (hs : s.WellFormed) : Since s G s where
  wellFormed := hs
  spared := .refl _ s
  closed := s.fresh_holds.1
  bound hx _ := hx
  object _ := .inl rfl

theorem withLogs (h : Since s G t) (printed : String) (requests : List String) :
    Since s G (t.withLogs printed requests) where
  wellFormed := h.wellFormed.withLogs _ _
  spared := h.spared.trans (.withLogs (fun p => p = .frame G) t _ _) fun _ _ h => h
  closed := h.closed.withLogs _ _
  bound hx hv := (Store.get?_withLogs _ _).trans (h.bound hx hv)
  object hx := by
    rw [Store.get?_withLogs]
    exact h.object hx

theorem datum (h : Since s G t) (hv : s.HasValue v) : t.datum v = s.datum v := by
  cases v with
  | null | boolean => rfl
  | ref id => exact h.spared.datum hv nofun

theorem plain (h : Since s G t) (hv : s.Plain v) : t.Plain v := by
  induction hv with
  | null => exact .null
  | boolean b => exact .boolean b
  | object ho hdata _ ih => exact .object ((h.datum (Store.hasValue_of_datum ho)).trans ho) hdata ih

/-- Separable classes stay separable. -/
theorem separable (h : Since s G t) (hT : s.Separable T) (hhas : s.HasFrame T) (hne : T ≠ G) : t.Separable T := by
  intro b hb
  have hframe : ¬Place.frame T = .frame G := fun heq => hne (Place.frame.inj heq)
  rw [h.spared.bindings hhas hframe] at hb
  refine (hT b hb).imp h.plain fun ⟨literal, isPublic, hd⟩ => ⟨literal, isPublic, ?_⟩
  rw [h.datum (Store.hasValue_of_datum hd), hd]

theorem hasFrame (h : Since s G t) (hG : s.HasFrame G) : t.HasFrame G := h.spared.has (p := .frame G) hG

theorem root (h : Since s G t) (hG : s.HasFrame G) (hroot : s.parent? G = none) : t.parent? G = none :=
  (h.spared.parent hG).trans hroot

/-- Constants that were there were constants then. -/
theorem constant {p : Place} (h : Since s G t) (hp : t.Constant p) : Grown s.Constant s t p := by
  cases p with
  | frame E => exact hp.elim
  | object id =>
    obtain ⟨o, ho, hconstant⟩ := hp
    by_cases hid : s.HasValue (.ref id)
    · exact .inl ⟨o, (h.datum hid).symm.trans ho, hconstant⟩
    · exact .inr ⟨hid, Store.hasValue_of_datum ho⟩

/-- After an object was made. -/
theorem made (h : Since s G t) (hG : s.HasFrame G) (hu : u.WellFormed) (hmade : Made G x t u) (hx : s.Free G x) :
    Since s G u where
  wellFormed := hu
  spared := h.spared.trans hmade.spared fun _ _ h => h
  closed := by
    have hhas {p : Place} (hp : Grown s.Constant s t p) : t.Has p := by
      rcases hp with hp | ⟨_, hp⟩
      · exact h.spared.has hp.has
      · exact hp
    have hold : Closed (Grown s.Constant s t) False u := by
      refine h.closed.spared hmade.spared (fun _ => hhas) ?_
      rintro _ (hp | ⟨hnew, _⟩) rfl
      · exact hp
      · exact hnew hG
    refine (hold.union hmade.closed).congr fun p => ⟨?_, ?_⟩
    · rintro (hp | hp | ⟨hnew, hp⟩)
      · exact hp.mono fun _ => hmade.spared.has
      · exact (h.constant hp).mono fun _ => hmade.spared.has
      · exact .inr ⟨fun hs => hnew (h.spared.has hs), hp⟩
    · rintro (hp | ⟨hnew, hp⟩)
      · exact .inl (.inl hp)
      · by_cases ht : t.Has p
        · exact .inl (.inr ⟨hnew, ht⟩)
        · exact .inr (.inr ⟨ht, hp⟩)
  bound {y name v T} hy hv := by
    have hne : y ≠ x := by
      rintro rfl
      exact hx v name T hy hv
    rw [hmade.other hne, h.bound hy hv]
  object {y} hfree := by
    have hkeep (hy : u.get? G y = t.get? G y) : u.get? G y = s.get? G y ∨ ∃ v name I, u.get? G y = some v ∧
        u.datum v = .object (.inst name I) ∧ Grown s.Constant s u (.frame I) := by
      rcases h.object hfree with hsame | ⟨v, name, I, hv, hI, hframe⟩
      · exact .inl (hy.trans hsame)
      · exact .inr ⟨v, name, I, hy.trans hv, hmade.spared.fixed hI trivial, hframe.mono fun _ => hmade.spared.has⟩
    by_cases hne : y = x
    · subst hne
      rcases hmade.object with hsame | ⟨v, name, I, hv, hI, hframe⟩
      · exact hkeep hsame
      · refine .inr ⟨v, name, I, hv, hI, ?_⟩
        rcases hframe with hconstant | ⟨hnew, hhas⟩
        · exact hconstant.elim
        · exact .inr ⟨fun hs => hnew (h.spared.has hs), hhas⟩
    · exact hkeep (hmade.other hne)

section Root

variable (h : Since s G t) (hs : s.WellFormed) (hG : s.HasFrame G) (hroot : s.parent? G = none)

include h hs hroot

/-- What the frame of the program bound before is what it was. -/
theorem datum_of_get? (hx : s.get? G x = some v) : t.datum v = s.datum v :=
  h.datum (hs.binding (Store.mem_bindings_of_get? hroot hx))

/-- Objects that free names are bound to now were made since. -/
theorem object_frame {name : String} {I : FrameId} (hx : s.Free G x) (hget : t.get? G x = some v)
    (hv : t.datum v = .object (.inst name I)) : Grown s.Constant s t (.frame I) := by
  rcases h.object hx with hsame | ⟨u, name', J, hu, hJ, hframe⟩
  · rw [hsame] at hget
    rw [h.datum_of_get? hs hroot hget] at hv
    exact (hx v name I hget hv).elim
  · rw [hu] at hget
    cases hget
    rw [hJ] at hv
    cases hv
    exact hframe

include hG

/-- After a method was called. -/
theorem call (hx : s.Free G x) (library : Library) (n : Nat) (method : String) (arguments : List Expr) :
    Since s G ((Action.call x method arguments).run library n G t).2 := by
  have hregion : (Invariant.region s.Constant False s).Holds t := ⟨h.closed, fun _ => h.spared.has⟩
  obtain ⟨hholds, hlater⟩ :=
    Action.call_region hregion (fun v name I => h.object_frame hs hroot hx) library n method arguments
  have hwf := Action.wellFormed h.wellFormed (h.hasFrame hG) library n (.call x method arguments)
  have hget (y : String) : _ = t.get? G y :=
    hlater.get?_of_root (h.hasFrame hG) (h.root hG hroot) (fun hp => hp.of_has hG) y
  refine ⟨hwf, ?_, hholds.1, fun hy hv => (hget _).trans (h.bound hy hv), fun {y} hfree => ?_⟩
  · have hspared : Spared (fun p => p = .frame G ∨ s.Constant p) s t := h.spared.mono fun _ _ => .inl
    have hrun := hspared.trans hlater fun _ hp hchange => .inr (hchange.of_has hp)
    exact hrun.except_constants.mono fun _ _ hp => hp.1.resolve_right hp.2
  · rcases h.object hfree with hsame | ⟨v, name, I, hv, hI, hframe⟩
    · exact .inl ((hget y).trans hsame)
    · exact .inr ⟨v, name, I, (hget y).trans hv, hlater.fixed hI trivial, hframe.mono fun _ => hlater.has⟩

/-- Objects are made then as they were before. -/
theorem make {className : String} {arguments : List Expr}
    (hfair : (Action.make x className arguments).Fair s G s.Separable) (library : Library) (n : Nat) :
    Made G x t ((Action.make x className arguments).run library n G t).2 ∧
      Since s G ((Action.make x className arguments).run library n G t).2 := by
  obtain ⟨hx, harguments, v, name, T, hget, hv, hT⟩ := hfair
  have hmade : Made G x t ((Action.make x className arguments).run library n G t).2 := by
    refine Action.made h.wellFormed (h.hasFrame hG) (h.root hG hroot) (h.bound hget hv) (h.spared.fixed hv trivial) ?_
      harguments library n x
    exact h.separable hT (hs.frame hv rfl) (hT.ne hroot hget hv)
  have hwf := Action.wellFormed h.wellFormed (h.hasFrame hG) library n (.make x className arguments)
  exact ⟨hmade, h.made hG hwf hmade hx⟩

end Root

end Since

end Pron
