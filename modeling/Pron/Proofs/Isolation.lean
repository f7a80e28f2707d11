import Pron.Proofs.Agreement

/-!
# Isolation of objects

Method calls on one object of a separable class change nothing that is seen of the others, nor of those that are made
later (`isolated`). The run in which the calls are left out is compared with the one in which they are made: a renaming
pairs all that can be reached in both but for the places of the one object, which no other object reaches (`Apart`).

Without separable classes this fails. A function inside of an array goes on working in the frame of the class, which all
objects share in this way (`shared_not_isolated`).
-/

namespace Pron

/-! ## Two programs -/

/-- Two stores that come from the given one by the same actions but for calls of methods of one object. What has been
made is paired but for the places of that object, which nothing leads out of and which it shares only constants of. -/
structure Apart (s : Store) (G : FrameId) (a : String) (A : Place → Prop) (w : Renaming) : Prop where
  faithful : w.Faithful
  left : Since s G w.left
  right : Since s G w.right
  outside : w.Outside G
  template {T : FrameId} : s.Template G T → w.frame T T
  names {x : String} : x ≠ a → w.Named s G x
  closed : Closed A False w.left
  has {p : Place} : A p → w.left.Has p
  away : ¬A (.frame G)
  meet {p : Place} : A p → w.leftPlaces p → w.left.Constant p
  object : w.left.get? G a = s.get? G a ∨
    ∃ v name I, w.left.get? G a = some v ∧ w.left.datum v = .object (.inst name I) ∧ A (.frame I)

namespace Apart

variable {s : Store} {G : FrameId} {a x className : String} {A : Place → Prop} {w : Renaming}

/-- At the start nothing has been made. -/
theorem start (hs : s.WellFormed) (hG : s.HasFrame G) (hroot : s.parent? G = none) :
    Apart s G a (fun _ => False) (.classes s G) where
  faithful := Renaming.classes_faithful hs G
  left := .refl hs
  right := .refl hs
  outside := by
    refine ⟨hG, hG, hroot, hroot, ?_, ?_⟩
    · rintro ⟨_, rfl, hG'⟩
      exact hG'.ne rfl
    · rintro ⟨_, rfl, hG'⟩
      exact hG'.ne rfl
  template hT := ⟨rfl, hT⟩
  names {x} _ := by
    show (∃ v, s.get? G x = some v ∧ s.get? G x = some v ∧ s.get? G x = some v) ∨
      Option.Rel _ (s.get? G x) (s.get? G x)
    cases s.get? G x with
    | none => exact .inr .none
    | some v => exact .inl ⟨v, rfl, rfl, rfl⟩
  closed := ⟨False.elim, False.elim, False.elim⟩
  has := False.elim
  away := id
  meet := False.elim
  object := .inl rfl

theorem withLogs (h : Apart s G a A w) (printed : String) (requests : List String) :
    Apart s G a A (w.withLogs printed printed requests requests) where
  faithful := h.faithful.withLogs _ _ _ _
  left := h.left.withLogs _ _
  right := h.right.withLogs _ _
  outside := h.outside.later (.withLogs w _ _ _ _)
  template := h.template
  names hne :=
    (h.names hne).later (Renaming.Le.withLogs w _ _ _ _).toGrows (Store.get?_withLogs _ _) (Store.get?_withLogs _ _)
  closed := h.closed.withLogs _ _
  has := h.has
  away := h.away
  meet := h.meet
  object := by
    show (w.left.withLogs printed requests).get? G a = _ ∨ ∃ v name I,
      (w.left.withLogs printed requests).get? G a = some v ∧ w.left.datum v = .object (.inst name I) ∧ A (.frame I)
    rw [Store.get?_withLogs]
    exact h.object

theorem stores (h : Apart s G a A w) (printed : String) (requests : List String) :
    Renaming.simulation.stores (w.withLogs printed printed requests requests) (w.left.withLogs printed requests)
      (w.right.withLogs printed requests) :=
  ⟨rfl, rfl, (h.withLogs printed requests).faithful, rfl, rfl⟩

/-! ## One action in both programs -/

section Steps

variable (h : Apart s G a A w) (hs : s.WellFormed) (hG : s.HasFrame G) (hroot : s.parent? G = none)

include h hG hroot

/-- A later renaming, when the places of the one object are spared. -/
theorem later {B : Place → Prop} {w' : Renaming} (hgrows : w.Grows w') (hw' : w'.Faithful) (hleft : Since s G w'.left)
    (hright : Since s G w'.right) (hspared : Spared B w.left w'.left) (hB : ∀ p, A p → ¬B p)
    (hnames : ∀ x, x ≠ a → w'.Named s G x) (ha : w'.left.get? G a = w.left.get? G a) : Apart s G a A w' where
  faithful := hw'
  left := hleft
  right := hright
  outside :=
    ⟨hleft.hasFrame hG, hright.hasFrame hG, hleft.root hG hroot, hright.root hG hroot,
      mt (hgrows.left_old (p := .frame G) h.outside.left_has) h.outside.left,
      mt (hgrows.right_old (p := .frame G) h.outside.right_has) h.outside.right⟩
  template hT := hgrows.frame (h.template hT)
  names hne := hnames _ hne
  closed := h.closed.spared hspared (fun _ => h.has) hB
  has hp := hspared.has (h.has hp)
  away := h.away
  meet hp hpaired := (h.meet hp (hgrows.left_old (h.has hp) hpaired)).later hspared
  object := by
    rcases h.object with hsame | ⟨v, name, I, hv, hI, hframe⟩
    · exact .inl (ha.trans hsame)
    · exact .inr ⟨v, name, I, ha.trans hv, hspared.fixed hI trivial, hframe⟩

include hs

omit hG in
/-- A name that stands for no object is called in both programs. -/
theorem call_free {v : Value} (hlogs : Renaming.simulation.stores w w.left w.right) (hx : s.Free G x)
    (hv : s.get? G x = some v) (hleft : w.left.get? G x = some v) (hright : w.right.get? G x = some v)
    (library : Library) (n : Nat) (method : String) (arguments : List Expr) :
    w.Agrees library n G (.call x method arguments) w := by
  obtain ⟨_, _, _, hprinted, hrequests⟩ := hlogs
  have hnone (name : String) (I : FrameId) := hx v name I hv
  have hrun :=
    Action.run_call_of_not_object hleft (h.left.datum_of_get? hs hroot hv) hnone library n method arguments
  have hrun' :=
    Action.run_call_of_not_object hright (h.right.datum_of_get? hs hroot hv) hnone library n method arguments
  refine ⟨.refl w, h.faithful, by rw [hrun], by rw [hrun'], ?_⟩
  rw [hrun, hrun']
  refine Report.ext ?_ rfl hprinted hrequests
  cases n <;> rfl

/-- A method of another object is called in both programs. -/
theorem call (hlogs : Renaming.simulation.stores w w.left w.right) (hx : s.Free G x) (hne : x ≠ a)
    (library : Library) (n : Nat) (method : String) (arguments : List Expr) :
    ∃ w', Apart s G a A w' ∧ w.Agrees library n G (.call x method arguments) w' := by
  rcases h.names hne with ⟨v, hv, hleft, hright⟩ | hpaired
  · exact ⟨w, h, h.call_free hs hroot hlogs hx hv hleft hright library n method arguments⟩
  · obtain ⟨w', hle, hagrees⟩ := Renaming.call_agree hlogs h.outside hpaired library n method arguments
    have hleft := h.left.call hs hG hroot hx library n method arguments
    have hright := h.right.call hs hG hroot hx library n method arguments
    rw [← hagrees.left] at hleft
    rw [← hagrees.right] at hright
    have hget (y : String) : w'.left.get? G y = w.left.get? G y :=
      hle.left.get?_of_root h.outside.left_has h.outside.left_root h.outside.left y
    have hget' (y : String) : w'.right.get? G y = w.right.get? G y :=
      hle.right.get?_of_root h.outside.right_has h.outside.right_root h.outside.right y
    refine ⟨w', ?_, hagrees⟩
    -- the places of the one object are spared, for all it shares with what is paired are constants
    exact h.later hG hroot hagrees.grows hagrees.faithful hleft hright hle.left.except_constants
      (fun p hA hp => hp.2 (h.meet hA hp.1)) (fun y hy => (h.names hy).later hagrees.grows (hget y) (hget' y)) (hget a)

omit hG in
/-- The frame of the one object is a place of its own. -/
theorem object_frame {v : Value} {name : String} {I : FrameId} (ha : s.Free G a) (hget : w.left.get? G a = some v)
    (hI : w.left.datum v = .object (.inst name I)) : A (.frame I) := by
  rcases h.object with hsame | ⟨u, name', J, hu, hJ, hframe⟩
  · rw [hsame] at hget
    rw [h.left.datum_of_get? hs hroot hget] at hI
    exact (ha v name I hget hI).elim
  · rw [hu] at hget
    cases hget
    rw [hJ] at hI
    cases hI
    exact hframe

/-- A method of the one object is called in the left program. -/
theorem callSelf (ha : s.Free G a) (library : Library) (n : Nat) (method : String) (arguments : List Expr) :
    Apart s G a (Grown A w.left ((Action.call a method arguments).run library n G w.left).2)
      (w.replace ((Action.call a method arguments).run library n G w.left).2 w.right) := by
  have hleft := h.left.call hs hG hroot ha library n method arguments
  obtain ⟨hholds, hlater⟩ := Action.call_region (Invariant.region_holds h.closed) (G := G) (x := a)
    (fun v name I hget hI => .inl (h.object_frame hs hroot ha hget hI)) library n method arguments
  generalize ((Action.call a method arguments).run library n G w.left).2 = t at hleft hholds hlater
  -- what is paired is spared, for the two sides share only constants
  have hspared : Spared (fun p => A p ∧ ¬w.left.Constant p) w.left t :=
    hlater.except_constants.mono fun _ hp hchange => ⟨hchange.1.of_has hp, hchange.2⟩
  have hfaithful : (w.replace t w.right).Faithful := by
    refine h.faithful.replace hspared (.refl (fun _ => False) _) (fun p hp hA => ?_) (fun _ _ => id) ?_ ?_
    · exact hA.2 (h.meet hA.1 hp)
    · exact hleft.wellFormed
    · exact h.right.wellFormed
  have haway : ¬Changeable A w.left (.frame G) := fun hp => h.away (hp.of_has h.outside.left_has)
  have hget (y : String) : t.get? G y = w.left.get? G y :=
    hlater.get?_of_root h.outside.left_has h.outside.left_root haway y
  exact {
    faithful := hfaithful
    left := hleft
    right := h.right
    outside := ⟨hleft.hasFrame hG, h.outside.right_has, hleft.root hG hroot, h.outside.right_root, h.outside.left,
      h.outside.right⟩
    template := h.template
    names := fun hne => (h.names hne).later (Renaming.Grows.replace w t w.right) (hget _) rfl
    closed := hholds.1
    has := by
      rintro p (hA | ⟨_, hp⟩)
      · exact hlater.has (h.has hA)
      · exact hp
    away := fun hp => h.away (hp.changeable.of_has h.outside.left_has)
    meet := fun {p} hp hpaired => by
      have hold : w.left.Has p := h.faithful.left_has hpaired
      have hA : A p := hp.changeable.of_has hold
      exact (h.meet hA hpaired).later hlater
    object := by
      rcases h.object with hsame | ⟨v, name, I, hv, hI, hframe⟩
      · exact .inl ((hget a).trans hsame)
      · exact .inr ⟨v, name, I, (hget a).trans hv, hlater.fixed hI trivial, .inl hframe⟩ }

omit hG in
/-- Objects are made alike in both programs. -/
theorem new_agree (hlogs : Renaming.simulation.stores w w.left w.right) {arguments : List Expr}
    (hfair : (Action.make x className arguments).Fair s G s.Separable) (library : Library) (n : Nat) :
    Simulation.Agree (S := Renaming.simulation) w Simulation.values
      (Eval.expr library n (.new className arguments) G w.left)
      (Eval.expr library n (.new className arguments) G w.right) := by
  obtain ⟨_, harguments, v, name, T, hget, hv, hT⟩ := hfair
  have htemplate : s.Template G T := ⟨hs.frame hv rfl, hs.root hv, hT, hT.ne hroot hget hv⟩
  have hrootT : w.left.parent? T = none := (h.left.spared.parent htemplate.has).trans htemplate.root
  exact Renaming.new_agree hlogs (h.template htemplate) hrootT (h.left.bound hget hv) (h.right.bound hget hv)
    (h.left.spared.fixed hv trivial) (h.right.spared.fixed hv trivial) harguments library n

/-- Another object is made in both programs. -/
theorem make (hlogs : Renaming.simulation.stores w w.left w.right) {arguments : List Expr}
    (hfair : (Action.make x className arguments).Fair s G s.Separable) (hne : x ≠ a) (library : Library) (n : Nat) :
    ∃ w', Apart s G a A w' ∧ w.Agrees library n G (.make x className arguments) w' := by
  obtain ⟨w', hagrees, hx⟩ := Renaming.make_agree (x := x) h.outside (h.new_agree hs hroot hlogs hfair library n)
  obtain ⟨hmade, hleft⟩ := h.left.make hs hG hroot hfair library n
  obtain ⟨hmade', hright⟩ := h.right.make hs hG hroot hfair library n
  rw [← hagrees.left] at hmade hleft
  rw [← hagrees.right] at hmade' hright
  refine ⟨w', ?_, hagrees⟩
  refine h.later hG hroot hagrees.grows hagrees.faithful hleft hright hmade.spared ?_ (fun y hy => ?_)
    (hmade.other hne.symm)
  · rintro p hp rfl
    exact h.away hp
  · by_cases hyx : y = x
    · subst hyx
      exact hx s (h.names hy)
    · exact (h.names hy).later hagrees.grows (hmade.other hyx) (hmade'.other hyx)

/-- The one object is made in both programs. -/
theorem makeSelf {arguments : List Expr} (hfair : (Action.make a className arguments).Fair s G s.Separable)
    (library : Library) (n : Nat) :
    Apart s G a
      (fun p => A p ∨ Grown w.left.Constant w.left ((Action.make a className arguments).run library n G w.left).2 p)
      (w.replace ((Action.make a className arguments).run library n G w.left).2
        ((Action.make a className arguments).run library n G w.right).2) := by
  obtain ⟨hmade, hsince⟩ := h.left.make hs hG hroot hfair library n
  obtain ⟨hmade', hsince'⟩ := h.right.make hs hG hroot hfair library n
  generalize ((Action.make a className arguments).run library n G w.left).2 = t at hmade hsince
  generalize ((Action.make a className arguments).run library n G w.right).2 = t' at hmade' hsince'
  have hfaithful : (w.replace t t').Faithful := by
    refine h.faithful.replace hmade.spared hmade'.spared ?_ ?_ hsince.wellFormed hsince'.wellFormed
    · rintro p hp rfl
      exact h.outside.left hp
    · rintro p hp rfl
      exact h.outside.right hp
  have hclosed : Closed A False t := by
    refine h.closed.spared hmade.spared (fun _ => h.has) ?_
    rintro p hp rfl
    exact h.away hp
  exact {
    faithful := hfaithful
    left := hsince
    right := hsince'
    outside :=
      ⟨hsince.hasFrame hG, hsince'.hasFrame hG, hsince.root hG hroot, hsince'.root hG hroot, h.outside.left,
        h.outside.right⟩
    template := h.template
    names := fun hne =>
      (h.names hne).later (Renaming.Grows.replace w t t') (hmade.other hne) (hmade'.other hne)
    closed := hclosed.union hmade.closed
    has := by
      rintro p (hp | hp | ⟨_, hp⟩)
      · exact hmade.spared.has (h.has hp)
      · exact hmade.spared.has hp.has
      · exact hp
    away := by
      rintro (hp | hp | ⟨hnew, _⟩)
      · exact h.away hp
      · exact hp
      · exact hnew h.outside.left_has
    meet := by
      rintro p (hp | hp | ⟨hnew, _⟩) hpaired
      · exact (h.meet hp hpaired).later hmade.spared
      · exact hp.later hmade.spared
      · exact (hnew (h.faithful.left_has hpaired)).elim
    object := by
      rcases hmade.object with hkept | ⟨v, name, I, hv, hI, hframe⟩
      · rcases h.object with hsame | ⟨v, name, I, hv, hI, hframe⟩
        · exact .inl (hkept.trans hsame)
        · exact .inr ⟨v, name, I, hkept.trans hv, hmade.spared.fixed hI trivial, .inl hframe⟩
      · exact .inr ⟨v, name, I, hv, hI, .inr hframe⟩ }

/-- One action is run in both programs, or in the left one only if it calls a method of the one object. -/
theorem step (hlogs : Renaming.simulation.stores w w.left w.right) {action : Action}
    (hfair : action.Fair s G s.Separable) (library : Library) (n : Nat) :
    ∃ A' w', Apart s G a A' w' ∧ w'.left = (action.run library n G w.left).2 ∧
      (action.calls a = true → w'.right = w.right) ∧
      (action.calls a = false → w'.right = (action.run library n G w.right).2 ∧
        action.report G (action.run library n G w.left) = action.report G (action.run library n G w.right)) := by
  cases action with
  | make x className arguments =>
    by_cases hxa : x = a
    · subst hxa
      obtain ⟨_, hagrees, _⟩ := Renaming.make_agree (x := x) h.outside (h.new_agree hs hroot hlogs hfair library n)
      exact ⟨_, _, h.makeSelf hs hG hroot hfair library n, rfl, nofun, fun _ => ⟨rfl, hagrees.report⟩⟩
    · obtain ⟨w', hw', hagrees⟩ := h.make hs hG hroot hlogs hfair hxa library n
      exact ⟨A, w', hw', hagrees.left, nofun, fun _ => ⟨hagrees.right, hagrees.report⟩⟩
  | call x method arguments =>
    by_cases hxa : x = a
    · subst hxa
      refine ⟨_, _, h.callSelf hs hG hroot hfair library n method arguments, rfl, fun _ => rfl, fun hcalls => ?_⟩
      simp [Action.calls] at hcalls
    · obtain ⟨w', hw', hagrees⟩ := h.call hs hG hroot hlogs hfair hxa library n method arguments
      refine ⟨A, w', hw', hagrees.left, fun hcalls => ?_, fun _ => ⟨hagrees.right, hagrees.report⟩⟩
      simp [Action.calls, hxa] at hcalls

/-- The programs look alike but for the calls that only one of them makes. -/
theorem trace_eq (library : Library) (n : Nat) {actions : List Action}
    (hfair : ∀ action ∈ actions, action.Fair s G s.Separable) :
    (trace library n G actions w.left).filter (fun p => !p.1.calls a) =
      trace library n G (actions.filter fun action => !action.calls a) w.right := by
  induction actions generalizing A w with
  | nil => rfl
  | cons action rest ih =>
    obtain ⟨A', w', hw', hleft, hcalls, hother⟩ :=
      (h.withLogs "" []).step hs hG hroot (h.stores "" []) (hfair action List.mem_cons_self) library n
    have hrest := ih hw' fun action haction => hfair action (List.mem_cons_of_mem _ haction)
    rw [hleft] at hrest
    cases haction : action.calls a with
    | true =>
      rw [hcalls haction] at hrest
      rw [trace_cons, List.filter_cons_of_neg (by simp [haction]), List.filter_cons_of_neg (by simp [haction])]
      exact hrest.trans (trace_withLogs "" [])
    | false =>
      obtain ⟨hright, hreport⟩ := hother haction
      rw [hright] at hrest
      rw [trace_cons, List.filter_cons_of_pos (by simp [haction]), List.filter_cons_of_pos (by simp [haction]),
        trace_cons]
      exact congrArg₂ List.cons (congrArg (Prod.mk action) hreport) hrest

end Steps

end Apart

/-- **Isolation of objects.** Whatever methods of an object are called, and whenever, all other objects of separable
classes are made and answer calls just as they would without these calls. -/
theorem isolated {s : Store} (hs : Reachable s) (a : String) {actions : List Action}
    (hfair : ∀ action ∈ actions, action.Fair s Session.start.frame s.Separable) (library : Library) (n : Nat) :
    (trace library n Session.start.frame actions s).filter (fun p => !p.1.calls a) =
      trace library n Session.start.frame (actions.filter fun action => !action.calls a) s := by
  obtain ⟨hG, hroot⟩ := hs.root
  exact (Apart.start hs.wellFormed hG hroot).trace_eq hs.wellFormed hG hroot library n hfair

/-- The store after a class `C` was declared, with some fields and a method `Bump`. -/
def declared (fields : List FieldDecl) (body : List Stmt) : Store :=
  (Outcome.of (Eval.program (Eval.expr (Library.ofUnits []) 6)
    [.classDecl ⟨"C", fields, [⟨"Bump", ⟨[], body⟩, true⟩], none⟩] Session.start.frame) Session.start.store).2

theorem declared_reachable (fields : List FieldDecl) (body : List Stmt) : Reachable (declared fields body) :=
  Reachable.program .start _ _ _

/-- The function `func() { n = n + 1; return n; }`. -/
def counter : FunctionLit :=
  ⟨[], [.expr (.binary .assign (.name "n") (.binary .add (.name "n") (.integer 1))), .ret (.name "n")]⟩

/-- The actions `var a = new C(); var b = new C(); a.Bump(); a.Bump(); b.Bump(); var c = new C();`. -/
def bumps : List Action :=
  [.make "a" "C" [], .make "b" "C" [], .call "a" "Bump" [], .call "a" "Bump" [], .call "b" "Bump" [], .make "c" "C" []]

theorem bumps_fair {s : Store} {G T : FrameId} {v : Value} {name : String} {required : FrameId → Prop}
    (hnew : ∀ x ∈ ["a", "b", "c"], s.get? G x = none) (hget : s.get? G "C" = some v)
    (hv : s.datum v = .object (.inst name T)) (hrequired : required T) :
    ∀ action ∈ bumps, action.Fair s G required := by
  have hfree (x : String) (hx : x ∈ ["a", "b", "c"]) : s.Free G x := by
    intro u name I hu
    rw [hnew x hx] at hu
    cases hu
  have hmake (x : String) (hx : x ∈ ["a", "b", "c"]) : (Action.make x "C" []).Fair s G required :=
    ⟨hfree x hx, nofun, v, name, T, hget, hv, hrequired⟩
  have hcall (x : String) (hx : x ∈ ["a", "b", "c"]) : (Action.call x "Bump" []).Fair s G required := hfree x hx
  simp only [bumps, List.mem_cons, List.not_mem_nil, or_false]
  rintro action (rfl | rfl | rfl | rfl | rfl | rfl)
  · exact hmake "a" (by simp)
  · exact hmake "b" (by simp)
  · exact hcall "a" (by simp)
  · exact hcall "a" (by simp)
  · exact hcall "b" (by simp)
  · exact hmake "c" (by simp)

/-- The store after `class C { var n = 0; var f = func() { n = n + 1; return n; }; func Bump() { return f(); } }`. -/
def counting : Store :=
  declared [⟨"n", .integer 0⟩, ⟨"f", .function counter⟩] [.ret (.call (.name "f") [])]

theorem counting_isolated : Reachable counting ∧
    (∀ action ∈ bumps, action.Fair counting Session.start.frame counting.Separable) ∧
    (trace (Library.ofUnits []) 10 Session.start.frame bumps counting).filter (fun p => !p.1.calls "a") =
      trace (Library.ofUnits []) 10 Session.start.frame (bumps.filter fun action => !action.calls "a") counting ∧
    (trace (Library.ofUnits []) 10 Session.start.frame bumps counting).map (fun p => p.2.outcome) =
      [.value "NULL(null)", .value "NULL(null)", .value "INTEGER(1)", .value "INTEGER(2)", .value "INTEGER(1)",
        .value "NULL(null)"] := by
  have hreach : Reachable counting := declared_reachable _ _
  have hseparable : counting.Separable ⟨1⟩ := by
    intro b hb
    have hbindings : counting.bindings ⟨1⟩ = [("n", .ref ⟨0⟩), ("f", .ref ⟨1⟩), ("Bump", .ref ⟨2⟩)] := rfl
    rw [hbindings] at hb
    simp only [List.mem_cons, List.not_mem_nil, or_false] at hb
    rcases hb with rfl | rfl | rfl
    · exact .inl (.object (o := .integer 0) rfl trivial nofun)
    · exact .inr ⟨counter, true, rfl⟩
    · exact .inr ⟨_, true, rfl⟩
  have hfair : ∀ action ∈ bumps, action.Fair counting Session.start.frame counting.Separable :=
    bumps_fair (v := .ref ⟨3⟩) (by decide +kernel) (by decide +kernel) rfl hseparable
  exact ⟨hreach, hfair, isolated hreach "a" hfair (Library.ofUnits []) 10, by decide +kernel⟩

/-! ## Functions inside of arrays -/

namespace Store

/-- Values built at any depth from data without instances and from functions that were made in a frame. -/
inductive Built (s : Store) (T : FrameId) : Value → Prop
  | null : Built s T .null
  | boolean (b : Bool) : Built s T (.boolean b)
  | function {v : Value} : s.MadeIn T v → Built s T v
  | object {id : ObjectId} {o : Object} : s.datum (.ref id) = .object o → o.IsData → (∀ u ∈ o.parts, Built s T u) →
      Built s T (.ref id)

/-- The frame of a class binds data, and functions that were made in the frame itself, also inside of data. -/
def Composite (s : Store) (T : FrameId) : Prop := ∀ b ∈ s.bindings T, s.Built T b.2

end Store

/-- The store after `class C { var n = 0; var fs = [func() { n = n + 1; return n; }]; func Bump() { var f = first(fs);
return f(); } }`. -/
def sharing : Store :=
  declared [⟨"n", .integer 0⟩, ⟨"fs", .array [.function counter]⟩]
    [.var "f" (.call (.name "first") [.name "fs"]), .ret (.call (.name "f") [])]

/-- A function inside of an array goes on counting in the frame of the class, for all objects together. -/
theorem shared_not_isolated :
    ¬∀ (s : Store) (a : String) (actions : List Action) (library : Library) (n : Nat), Reachable s →
      (∀ action ∈ actions, action.Fair s Session.start.frame s.Composite) →
      (trace library n Session.start.frame actions s).filter (fun p => !p.1.calls a) =
        trace library n Session.start.frame (actions.filter fun action => !action.calls a) s := by
  intro h
  have hcomposite : sharing.Composite ⟨1⟩ := by
    intro b hb
    have hbindings : sharing.bindings ⟨1⟩ = [("n", .ref ⟨0⟩), ("fs", .ref ⟨2⟩), ("Bump", .ref ⟨3⟩)] := rfl
    rw [hbindings] at hb
    simp only [List.mem_cons, List.not_mem_nil, or_false] at hb
    rcases hb with rfl | rfl | rfl
    · exact .object (o := .integer 0) rfl trivial nofun
    · refine .object (o := .array [.ref ⟨1⟩]) rfl trivial fun u hu => ?_
      obtain rfl := List.mem_singleton.1 hu
      exact .function ⟨counter, true, rfl⟩
    · exact .function ⟨_, true, rfl⟩
  have hfair : ∀ action ∈ bumps, action.Fair sharing Session.start.frame sharing.Composite :=
    bumps_fair (v := .ref ⟨4⟩) (by decide +kernel) (by decide +kernel) rfl hcomposite
  have htraces := h sharing "a" bumps (Library.ofUnits []) 10 (declared_reachable _ _) hfair
  have hreports := congrArg (List.map fun p => p.2) htraces
  exact absurd hreports (by decide +kernel)

end Pron
