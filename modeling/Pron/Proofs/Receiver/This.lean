import Pron.Proofs.Actions
import Pron.Proofs.Receiver.Agreement
import Pron.Proofs.Store.Scope

/-!
# The meaning of `this.`

Programs do what they do when every text is told its receiver, and the methods and constructors of an object are for the
object (`Receiver.Reached.this_is_receiver`). So `this.x` is the binding of `x` in the object's own frame, no matter
what is bound to `x` in other frames.

The language evaluates some texts for another object than the text around them is for: arguments of method calls, those
of `new` that go into fields, and class statements (`this_elsewhere`).
-/

namespace Pron

namespace Receiver

variable {σ τ : State} {R E I : FrameId}

theorem datum_bind {α : Type} (v : Value) (f : Datum → Run α) (σ : State) :
    (lift (Eval.datum v) >>= f) σ = f (σ.store.datum v) σ := rfl

/-! ## Texts for a receiver -/

/-- What the text that is evaluated for a receiver `R` in a frame `E` does, with respect to `this.`. -/
structure Serves (library : Library) (n : Nat) (R E : FrameId) (σ : State) : Prop where
  /-- It does what the evaluator does. -/
  agree (e : Expr) : AgreeAt σ same (expr library n R e E σ) (Eval.expr library n e E σ.store)
  read {x : String} {v : Value} : σ.store.localValue? R x = some v →
    expr library (n + 1) R (.thisName x) E σ = .ok v σ
  read_none {x : String} : σ.store.localValue? R x = none →
    expr library (n + 1) R (.thisName x) E σ = .error (.failed (.notFoundThis x)) σ
  assign {x : String} {value : Expr} {v : Value} {τ : State} : expr library n R value E σ = .ok v τ →
    (τ.store.localValue? R x).isSome → ∃ t, τ.store.Rebound t R x v ∧
      expr library (n + 1) R (.binary .assign (.thisName x) value) E σ = .ok v { τ with store := t }
  assign_none {x : String} {value : Expr} {v : Value} {τ : State} : expr library n R value E σ = .ok v τ →
    τ.store.localValue? R x = none →
    expr library (n + 1) R (.binary .assign (.thisName x) value) E σ = .error (.failed (.notDefinedThis x)) τ
  assign_stop {x : String} {value : Expr} {stop : Stop} {τ : State} : expr library n R value E σ = .error stop τ →
    expr library (n + 1) R (.binary .assign (.thisName x) value) E σ = .error stop τ
  /-- The functions that it makes are for the receiver as well. -/
  function (literal : FunctionLit) : ∃ f τ, expr library (n + 1) R (.function literal) E σ = .ok f τ ∧
    τ.store.datum f = .object (.function ⟨literal, E, true⟩) ∧ τ.madeFor f = R
  declare (decl : FunctionDecl) : ∃ f τ, declare R decl E σ = .ok f τ ∧
    τ.store.datum f = .object (.function ⟨decl.literal, E, decl.isPublic⟩) ∧ τ.madeFor f = R
  /-- What other frames bind, those that calls and loops open among them, does not matter. -/
  other {F : FrameId} (x y : String) (v : Value) : F ≠ R →
    (σ.store.set F y v).localValue? R x = σ.store.localValue? R x
  opened (P : FrameId) (x : String) : (σ.store.newChild P).1 ≠ R ∧
    (σ.store.newChild P).2.localValue? R x = σ.store.localValue? R x

theorem serves (library : Library) (n : Nat) (hσ : σ.Tracks) (hE : σ.store.Within R E) :
    Serves library n R E σ where
  agree e := expr_agrees library n σ R e E hE hσ
  read {x v} h := by
    show readThis R x σ = _
    unfold readThis
    rw [Eval.get_bind, h]
    rfl
  read_none {x} h := by
    show readThis R x σ = _
    unfold readThis
    rw [Eval.get_bind, h]
    rfl
  assign {x value v τ} hvalue hx := by
    obtain ⟨w, hw⟩ := Option.isSome_iff_exists.1 hx
    refine ⟨τ.store.set R x v, Store.rebound_set hx, ?_⟩
    show (expr library n R value E >>= assignThis R x) σ = _
    rw [Eval.bind_of_ok hvalue]
    unfold assignThis
    rw [Eval.get_bind, hw]
    rfl
  assign_none {x value v τ} hvalue hx := by
    show (expr library n R value E >>= assignThis R x) σ = _
    rw [Eval.bind_of_ok hvalue]
    unfold assignThis
    rw [Eval.get_bind, hx]
    rfl
  assign_stop {x value stop τ} hvalue := by
    show (expr library n R value E >>= assignThis R x) σ = _
    exact Eval.bind_of_error hvalue
  function literal := ⟨_, _, rfl, Store.datum_alloc_self, if_pos rfl⟩
  declare decl := ⟨_, _, rfl, Store.datum_alloc_self, if_pos rfl⟩
  other x y v hF := Store.localValue?_set_of_ne (.inl hF.symm)
  opened P x := by
    have hR := hE.hasFrame_receiver
    refine ⟨fun h => ?_, ?_⟩
    · rw [← h] at hR
      exact Nat.lt_irrefl _ hR
    · rw [Store.localValue?_eq, Store.localValue?_eq]
      exact congrArg (List.lookup x) (Store.bindings_newFrame hR)

/-! ## Objects -/

/-- An object with the frame `I` is the receiver of its methods and of its constructor. -/
structure Owns (I : FrameId) (σ : State) : Prop where
  within : σ.store.Within I I
  /-- The functions that were made in its frame, as the methods of its class were, are for the object. -/
  method {f : Value} {closure : Closure} : σ.store.datum f = .object (.function closure) → closure.frame = I →
    σ.madeFor f = I
  /-- A method that is called, from wherever, runs for the object. -/
  call {rec : FrameId → Expr → FrameId → Run Value} {R E : FrameId} {object method className : String}
    {arguments : List Expr} {v f : Value} {closure : Closure} : σ.store.get? E object = some v →
    σ.store.datum v = .object (.inst className I) → σ.store.get? I method = some f →
    σ.store.datum f = .object (.function closure) → closure.frame = I → closure.isPublic ∨ R = I →
    callMethod rec R object method arguments E σ = (exprs rec I arguments I >>= callClosure rec I closure) σ
  /-- The body of a constructor runs for the object, whoever makes it. -/
  construct {rec : FrameId → Expr → FrameId → Run Value} {R E : FrameId} {className : String} {init : Constructor}
    {arguments : List Expr} : init.parameters.length = arguments.length →
    construct rec R className init I arguments E σ = (do
      let F ← lift (modifyGet (·.newChild I))
      initArguments rec R className I F (init.parameters.zip arguments) E
      discard (catchReturn (block rec I init.body F)) : Run Unit) σ

/-- What a method call finds. A method that is not public is found when the call is for the object as well. -/
theorem findMethod_eq {object method className : String} {v f : Value} {closure : Closure}
    (hget : σ.store.get? E object = some v) (hv : σ.store.datum v = .object (.inst className I))
    (hf : σ.store.get? I method = some f) (hd : σ.store.datum f = .object (.function closure))
    (hcall : closure.isPublic ∨ R = I) : findMethod R object method E σ = .ok (σ.madeFor f, closure, I) σ := by
  have hallowed : ¬(!closure.isPublic && decide (R ≠ I)) = true := by
    rcases hcall with h | h <;> simp [h]
  unfold findMethod
  rw [Eval.get_bind, hget]
  dsimp only
  rw [datum_bind, hv]
  dsimp only
  rw [Eval.get_bind, hf]
  dsimp only
  rw [datum_bind, hd]
  dsimp only
  rw [if_neg hallowed]
  rfl

theorem construct_eq {rec : FrameId → Expr → FrameId → Run Value} {className : String} {init : Constructor}
    {arguments : List Expr} (h : init.parameters.length = arguments.length) :
    construct rec R className init I arguments E = (do
      let F ← lift (modifyGet (·.newChild I))
      initArguments rec R className I F (init.parameters.zip arguments) E
      discard (catchReturn (block rec I init.body F))) := by
  unfold construct
  rw [if_neg (not_not.2 h)]
  rfl

/-- An instance owns its frame in the account. -/
theorem owns (hσ : σ.Tracks) {v : Value} {className : String} (hv : σ.store.datum v = .object (.inst className I)) :
    Owns I σ := by
  have hI := hσ.object hv
  have hmethod {f : Value} {closure : Closure} (hf : σ.store.datum f = .object (.function closure))
      (hframe : closure.frame = I) : σ.madeFor f = I := by
    have hroot := (hσ.function hf).root_eq
    rw [hframe, hI.root_eq] at hroot
    exact hroot.symm
  refine ⟨hI, hmethod, fun hget hv hf hd hframe hcall => ?_, fun h => congrFun (construct_eq h) σ⟩
  have hfind := findMethod_eq hget hv hf hd hcall
  rw [hmethod hd hframe] at hfind
  exact Eval.bind_of_ok hfind

/-! ## Sessions -/

/-- In a state, `this.` means the receiver in all texts, functions and objects. -/
structure ThisIsReceiver (library : Library) (n : Nat) (σ : State) : Prop where
  text {R E : FrameId} : σ.store.Within R E → Serves library n R E σ
  /-- A function runs for the receiver for which it was made, from wherever it is called. -/
  call {f : Value} {closure : Closure} (rec : FrameId → Expr → FrameId → Run Value) (arguments : List Value) :
    σ.store.datum f = .object (.function closure) → σ.store.Within (σ.madeFor f) closure.frame ∧
      apply rec f arguments σ = callClosure rec (σ.madeFor f) closure arguments σ
  object {v : Value} {className : String} {I : FrameId} : σ.store.datum v = .object (.inst className I) → Owns I σ

/-- The laws hold in every state of which the account is right. -/
theorem thisIsReceiver (library : Library) (n : Nat) (hσ : σ.Tracks) : ThisIsReceiver library n σ where
  text := serves library n hσ
  call {f closure} rec arguments hf := by
    refine ⟨hσ.function hf, ?_⟩
    unfold apply
    rw [datum_bind, hf]
    rfl
  object := owns hσ

theorem AgreeAt.finalState {r : EStateM.Result Stop State Value} {y : Eval Value} {s : Store}
    (h : AgreeAt σ same r (y s)) : σ.Leads (finalState r) ∧ (finalState r).store = (Outcome.of y s).2 := by
  unfold Outcome.of
  generalize y s = r' at h
  cases r with
  | ok v τ => cases r' with
    | ok w t => exact ⟨h.2.1, h.1⟩
    | error => exact h.elim
  | error stop τ => cases r' with
    | ok => exact h.elim
    | error stop' t => cases stop' <;> exact ⟨h.2.1, h.1⟩

namespace Reached

/-- The account of receivers is right between programs, and the frame of the session is its own receiver. -/
theorem tracks (h : Reached σ) :
    σ.Tracks ∧ σ.store.Within Session.start.frame Session.start.frame ∧ Reachable σ.store := by
  induction h with
  | start madeFor =>
    have hnone {v : Value} {o : Object} : Session.start.store.datum v ≠ .object o := by
      intro hv
      cases v with
      | null | boolean => cases hv
      | ref id => cases Store.hasValue_of_datum hv
    exact ⟨⟨fun hf => (hnone hf).elim, fun hv => (hnone hv).elim⟩, .self Nat.one_pos rfl, .start⟩
  | run library n p _ ih =>
    obtain ⟨hσ, hE, hreach⟩ := ih
    obtain ⟨hleads, hstore⟩ := (Agree.program (expr_agrees library n) p hE hσ).finalState
    exact ⟨hleads.tracks, hleads.within hE, hstore ▸ hreach.program library n p⟩

/-- **`this.` means the receiver.** A program does what it does when every text in it is told its receiver. In the
state before it and in all states to which this leads, texts read and change the binding in the frame of their receiver
and no other, and fail if there is none; functions run for the receiver of the text that made them, and methods for
their object. -/
theorem this_is_receiver (h : Reached σ) (library : Library) (n : Nat) :
    Reachable σ.store ∧
    (∀ p, AgreeAt σ same (program (expr library n) Session.start.frame p Session.start.frame σ)
      (Eval.program (Eval.expr library n) p Session.start.frame σ.store)) ∧
    σ.Leads σ ∧ ∀ τ, σ.Leads τ → ThisIsReceiver library n τ := by
  obtain ⟨hσ, hE, hreach⟩ := h.tracks
  refine ⟨hreach, fun p => ?_, hσ.refl, fun τ hτ => thisIsReceiver library n hτ.tracks⟩
  exact Agree.program (expr_agrees library n) p hE hσ

end Reached

/-- The state after `class C { var n = 0; func F(n) { return func() { this.n = n; }; } } var c = new C(); var n = 1;
var f = c.F(7); f();`. -/
def closing : State :=
  finalState (program (expr (Library.ofUnits []) 8) Session.start.frame
    [.classDecl ⟨"C", [⟨"n", .integer 0⟩],
      [⟨"F", ⟨["n"], [.ret (.function ⟨[], [.expr (.binary .assign (.thisName "n") (.name "n"))]⟩)]⟩, true⟩], none⟩,
      .var "c" (.new "C" []), .var "n" (.integer 1), .var "f" (.methodCall "c" "F" [.integer 7]),
      .expr (.call (.name "f") [])]
    Session.start.frame ⟨Session.start.store, fun _ => Session.start.frame⟩)

theorem closing_this : Reached closing ∧ closing.Leads closing ∧ ThisIsReceiver (Library.ofUnits []) 8 closing ∧
    (closing.store.get? Session.start.frame "f").map closing.madeFor = some ⟨2⟩ ∧
    (closing.store.fieldsOf Session.start.frame "c").lookup "n" = some "INTEGER(7)" ∧
    (closing.store.get? Session.start.frame "n").map closing.store.describe = some "INTEGER(1)" := by
  have hreached : Reached closing := .run _ _ _ (.start _)
  obtain ⟨-, -, hleads, hthis⟩ := hreached.this_is_receiver (Library.ofUnits []) 8
  exact ⟨hreached, hleads, hthis closing hleads, by decide +kernel, by decide +kernel, by decide +kernel⟩

end Receiver

/-! ## Texts for other objects -/

/-- The body `class A { var v = 1; var w = 0; var u = this.v; Init(this.w) {} func W() { return w; }
func U() { return u; } func Id(y) { return y; } } var o = new A(this.v); return [o.Id(this.v), o.W(), o.U()];`. -/
def nestedBody : List Stmt :=
  [.classDecl ⟨"A", [⟨"v", .integer 1⟩, ⟨"w", .integer 0⟩, ⟨"u", .thisName "v"⟩],
      [⟨"W", ⟨[], [.ret (.name "w")]⟩, true⟩, ⟨"U", ⟨[], [.ret (.name "u")]⟩, true⟩,
        ⟨"Id", ⟨["y"], [.ret (.name "y")]⟩, true⟩],
      some ⟨[⟨"w", true⟩], []⟩⟩,
    .var "o" (.new "A" [.thisName "v"]),
    .ret (.array [.methodCall "o" "Id" [.thisName "v"], .methodCall "o" "W" [], .methodCall "o" "U" []])]

/-- The session after `class B { var v = 2; func M() { … } } var b = new B();`, with `nestedBody` for the body. -/
def nested : Session :=
  (Session.start.run (Library.ofUnits [])
    [.classDecl ⟨"B", [⟨"v", .integer 2⟩], [⟨"M", ⟨[], nestedBody⟩, true⟩], none⟩, .var "b" (.new "B" [])]).2

/-- An argument of a method call, an argument for a field and a field of a class are for other objects than the text
around them: in all three places `this.v` is the `v` of the object of the class inside, not that of the receiver. -/
theorem this_elsewhere :
    Reachable nested.store ∧ (nested.store.fieldsOf nested.frame "b").lookup "v" = some "INTEGER(2)" ∧
      let r := nested.run (Library.ofUnits []) [.expr (.methodCall "b" "M" [])]
      r.1.seen r.2.store = .value "ARRAY([1, 1, 1])" :=
  ⟨Reachable.session .start rfl _ _, by decide +kernel, by decide +kernel⟩

end Pron
