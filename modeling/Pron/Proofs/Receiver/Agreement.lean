import Pron.Proofs.Receiver.Tracking

/-!
# Receivers and roots

Evaluation for a receiver does what evaluation does, in every frame within the receiver (`Receiver.expr_agrees`). There
is one lemma for each part of the evaluator. They keep the account of receivers right: the frame of a loop is inside the
frame in which the loop stands, the frame of a call inside the one in which the function was made, so both are within
the receiver.
-/

namespace Pron

namespace Receiver

variable {α β γ δ : Type} {σ τ : State} {R E : FrameId}

/-! ## Agreement -/

/-- Results that agree on a store that they both end in. -/
def AgreeAt (σ : State) (Q : State → α → β → Prop) :
    EStateM.Result Stop State α → EStateM.Result Stop Store β → Prop
  | .ok a τ, .ok b t => τ.store = t ∧ σ.Leads τ ∧ Q τ a b
  | .error x τ, .error y t => τ.store = t ∧ σ.Leads τ ∧ x = y
  | _, _ => False

/-- Evaluations that agree on the store of a state, of which the account of receivers is right and stays right. -/
def Agree (σ : State) (Q : State → α → β → Prop) (x : Run α) (y : Eval β) : Prop :=
  σ.Tracks → AgreeAt σ Q (x σ) (y σ.store)

/-- The same result. -/
def same (_ : State) (a b : α) : Prop := a = b

/-- The same frame, within a receiver. -/
def sameWithin (R : FrameId) (σ : State) (E F : FrameId) : Prop := E = F ∧ σ.store.Within R E

/-- The same frame, the one of a class or an instance. -/
def sameRoot (σ : State) (I J : FrameId) : Prop := sameWithin I σ I J

/-- What agrees in a later state agrees. -/
theorem AgreeAt.after {Q : State → α → β → Prop} {r : EStateM.Result Stop State α}
    {r' : EStateM.Result Stop Store β} (h : AgreeAt τ Q r r') (hσ : σ.Leads τ) : AgreeAt σ Q r r' := by
  cases r with
  | ok a τ' => cases r' with
    | ok b t => exact ⟨h.1, hσ.trans h.2.1, h.2.2⟩
    | error => exact h.elim
  | error x τ' => cases r' with
    | ok => exact h.elim
    | error y t => exact ⟨h.1, hσ.trans h.2.1, h.2.2⟩

namespace Agree

variable {Q : State → α → β → Prop} {P : State → γ → δ → Prop}

/-- The same result, and the account is as right as it was. -/
theorem pure {a : α} {b : β} (h : Q σ a b) : Agree σ Q (Pure.pure a) (Pure.pure b) := fun hσ => ⟨rfl, hσ.refl, h⟩

theorem throw (stop : Stop) : Agree σ Q (MonadExcept.throw stop : Run α) (MonadExcept.throw stop : Eval β) :=
  fun hσ => ⟨rfl, hσ.refl, rfl⟩

/-- Errors say nothing about receivers. -/
theorem fail (e : RuntimeError) : Agree σ Q (Receiver.fail e : Run α) (Eval.fail e : Eval β) := throw (.failed e)

/-- Nothing comes after an error. -/
theorem fail_bind (e : RuntimeError) {f : α → Run γ} {g : β → Eval δ} :
    Agree σ P (Receiver.fail e >>= f) (Eval.fail e >>= g) := fun hσ => ⟨rfl, hσ.refl, rfl⟩

/-- Evaluations that agree one after the other, the second ones in a later state. -/
theorem bind {x : Run α} {y : Eval β} {f : α → Run γ} {g : β → Eval δ} (hx : Agree σ Q x y)
    (hf : ∀ a b τ, σ.Leads τ → Q τ a b → Agree τ P (f a) (g b)) : Agree σ P (x >>= f) (y >>= g) := by
  intro hσ
  have h := hx hσ
  show AgreeAt σ P (EStateM.bind x f σ) (EStateM.bind y g σ.store)
  unfold EStateM.bind
  generalize x σ = r at h
  generalize y σ.store = r' at h
  cases r with
  | ok a τ => cases r' with
    | ok b t =>
      obtain ⟨rfl, hτ, hQ⟩ := h
      exact (hf a b τ hτ hQ hτ.tracks).after hτ
    | error => exact h.elim
  | error x τ => cases r' with
    | ok => exact h.elim
    | error y t => exact h

/-- The evaluations may depend on the state. -/
theorem read {f : State → Run γ} {g : Store → Eval δ} (h : σ.Tracks → Agree σ P (f σ) (g σ.store)) :
    Agree σ P (get >>= f) (get >>= g) := fun hσ => h hσ hσ

/-- The evaluations may depend on what a value is. -/
theorem datum {v : Value} {f : Datum → Run γ} {g : Datum → Eval δ}
    (h : σ.Tracks → Agree σ P (f (σ.store.datum v)) (g (σ.store.datum v))) :
    Agree σ P (lift (Eval.datum v) >>= f) (Eval.datum v >>= g) := fun hσ => h hσ hσ

/-- What makes no functions is the same with an account of receivers. -/
theorem still {x : Eval α} (h : Eval.Still σ.store x) : Agree σ same (lift x) x := by
  intro hσ
  have hleads := hσ.calm h
  unfold lift
  cases hr : x σ.store with
  | ok a t =>
    rw [hr] at hleads
    exact ⟨rfl, hleads, rfl⟩
  | error stop t =>
    rw [hr] at hleads
    exact ⟨rfl, hleads, rfl⟩

/-- What only computes does not need to know the receiver. -/
theorem computes {x : Eval α} (h : Eval.Computes σ.store x) : Agree σ same (lift x) x := still h.still

theorem bindName (E : FrameId) (x : String) (v : Value) :
    Agree σ same (lift (Eval.bind E x v)) (Eval.bind E x v) := still (.bindName E x v)

/-- New plain data are in no account. -/
theorem alloc {o : Object} (ho : o.isPlaced = false) : Agree σ same (lift (Eval.alloc o)) (Eval.alloc o) :=
  computes (.alloc ho)

/-- A `return` in the one evaluation is a `return` in the other. -/
theorem catchReturn {x : Run Value} {y : Eval Value} (h : Agree σ same x y) :
    Agree σ same (Receiver.catchReturn x) (Eval.catchReturn y) := by
  intro hσ
  have h := h hσ
  unfold Receiver.catchReturn Eval.catchReturn
  generalize x σ = r at h
  generalize y σ.store = r' at h
  cases r with
  | ok a τ => cases r' with
    | ok b t => exact h
    | error => exact h.elim
  | error x τ => cases r' with
    | ok => exact h.elim
    | error y t =>
      obtain ⟨ht, hτ, rfl⟩ := h
      cases x with
      | returned v => exact ⟨ht, hτ, rfl⟩
      | failed | tooDeep => exact ⟨ht, hτ, rfl⟩

/-- One evaluation after the other for the elements of a list. -/
theorem forM {as : List α} {f : α → Run Unit} {g : α → Eval Unit}
    (hf : ∀ a τ, σ.Leads τ → Agree τ same (f a) (g a)) : Agree σ same (as.forM f) (as.forM g) := by
  induction as generalizing σ with
  | nil => exact pure rfl
  | cons a as ih =>
    intro hσ
    show AgreeAt σ same ((f a >>= fun _ => as.forM f) σ) ((g a >>= fun _ => as.forM g) σ.store)
    exact (hf a σ hσ.refl).bind (fun _ _ τ hτ _ => ih fun a υ hυ => hf a υ (hτ.trans hυ)) hσ

/-! ## New functions, instances and frames -/

/-- A new function gets the receiver of the frame in which it is made. -/
theorem makeFunction {closure : Closure} (hE : σ.store.Within R closure.frame) :
    Agree σ same (Receiver.makeFunction R closure) (Eval.alloc (.function closure)) :=
  fun hσ => ⟨rfl, hσ.function_alloc hE, rfl⟩

/-- A new instance is its own receiver, and so is the value of a class. -/
theorem inst (className : String) {I : FrameId} (hI : σ.store.Within I I) :
    Agree σ same (lift (Eval.alloc (.inst className I))) (Eval.alloc (.inst className I)) :=
  fun hσ => ⟨rfl, hσ.inst_alloc className hI, rfl⟩

/-- A frame around which there is nothing is its own receiver. -/
theorem newRoot : Agree σ sameRoot (lift (modifyGet Store.newRoot)) (modifyGet Store.newRoot) :=
  fun hσ => ⟨rfl, hσ.calm (.newFrame _ _), rfl, .newRoot _ rfl⟩

/-- A frame inside of another one has the same receiver. -/
theorem newChild (hE : σ.store.Within R E) :
    Agree σ (sameWithin R) (lift (modifyGet (·.newChild E))) (modifyGet (·.newChild E)) :=
  fun hσ => ⟨rfl, hσ.calm (.newFrame _ _), rfl, hE.newChild⟩

/-- A loop has the receiver of the frame in which it stands. -/
theorem loopFrame (x : String) (hE : σ.store.Within R E) :
    Agree σ (sameWithin R) (lift (Eval.loopFrame x E)) (Eval.loopFrame x E) := fun hσ =>
  have hcalm : σ.store.Calm ((σ.store.newChild E).2.set (σ.store.newChild E).1 x .null) :=
    .trans (.newFrame _ _) (.set _ _ _ _)
  ⟨rfl, hσ.calm hcalm, rfl, hE.newChild.mono (Store.Calm.set _ _ _ _).frames⟩

end Agree

/-! ## Parts of the evaluator -/

/-- Evaluators that agree in frames within the receiver. -/
def Agrees (rec : FrameId → Expr → FrameId → Run Value) (rec' : Expr → FrameId → Eval Value) : Prop :=
  ∀ (σ : State) (R : FrameId) (e : Expr) (E : FrameId), σ.store.Within R E → Agree σ same (rec R e E) (rec' e E)

namespace Agree

variable {rec : FrameId → Expr → FrameId → Run Value} {rec' : Expr → FrameId → Eval Value} (hrec : Agrees rec rec')

/-! ## Names -/

/-- The receiver is the root of the frame, so the field is found in the same place. -/
theorem readThis (x : String) (hE : σ.store.Within R E) :
    Agree σ same (Receiver.readThis R x) (Eval.readThis x E) := by
  refine read fun _ => ?_
  unfold Store.rootValue?
  rw [hE.root_eq]
  cases σ.store.localValue? R x with
  | none => exact fail _
  | some v => exact pure rfl

/-- The value of an assignment to a name. -/
theorem update (x : String) (v : Value) (e : RuntimeError) :
    Agree σ same
      (do
        match (← get).store.update? E x v with
        | some s => lift (set s); return v
        | none => Receiver.fail e : Run Value)
      (do
        match (← get).update? E x v with
        | some s => set s; return v
        | none => Eval.fail e : Eval Value) := by
  refine read fun _ => ?_
  cases hs : σ.store.update? E x v with
  | none => exact fail e
  | some s =>
    obtain ⟨F, -, rfl⟩ := Option.map_eq_some_iff.1 hs
    have hset : Agree σ same (lift (set (σ.store.set F x v))) (set (σ.store.set F x v)) := still (.set _ F x v)
    exact hset.bind fun _ _ _ _ _ => pure rfl

include hrec

/-- A field of the receiver is assigned to in the root of the frame. -/
theorem assign (target value : Expr) (hE : σ.store.Within R E) :
    Agree σ same (Receiver.assign rec R target value E) (Eval.assign rec' target value E) := by
  cases target with
  | name x => exact (hrec σ R value E hE).bind fun v _ τ _ h => h ▸ update x v _
  | thisName x =>
    refine (hrec σ R value E hE).bind fun v _ τ hτ h => ?_
    subst h
    refine read fun _ => ?_
    unfold Store.updateRoot? Store.rootValue?
    rw [(hτ.within hE).root_eq]
    cases τ.store.localValue? R x with
    | none => exact fail _
    | some w => exact (bindName R x v).bind fun _ _ _ _ _ => pure rfl
  | _ => exact fail _

/-! ## Statements -/

omit hrec in
/-- A declared function has the receiver of the frame in which it is declared. -/
theorem declare (decl : FunctionDecl) (hE : σ.store.Within R E) :
    Agree σ same (Receiver.declare R decl E) (Eval.declare decl E) := makeFunction hE

omit hrec in
/-- A value is bound when it is there. -/
theorem bindResult {x : Run Value} {y : Eval Value} (h : Agree σ same x y) (E : FrameId) (name : String) :
    Agree σ same (do lift (Eval.bind E name (← x))) (do Eval.bind E name (← y)) :=
  h.bind fun v _ _ _ h => h ▸ bindName E name v

/-- Fields and methods of a class have the frame of the class for a receiver. -/
theorem defineClass (decl : ClassDecl) (E : FrameId) :
    Agree σ same (Receiver.defineClass rec decl E) (Eval.defineClass rec' decl E) := by
  refine newRoot.bind fun C _ τ _ h => ?_
  obtain ⟨rfl, hC⟩ := h
  have hfields : Agree τ same
      (decl.fields.forM fun field => do lift (Eval.bind C field.name (← rec C field.value C)))
      (decl.fields.forM fun field => do Eval.bind C field.name (← rec' field.value C)) :=
    forM fun field υ hυ => bindResult (hrec υ C field.value C (hυ.within hC)) C field.name
  refine hfields.bind fun _ _ τ' hτ' _ => ?_
  have hC := hτ'.within hC
  have hmethods : Agree τ' same
      (decl.methods.forM fun method => do lift (Eval.bind C method.name (← Receiver.declare C method C)))
      (decl.methods.forM fun method => do Eval.bind C method.name (← Eval.declare method C)) :=
    forM fun method υ hυ => bindResult (declare method (hυ.within hC)) C method.name
  refine hmethods.bind fun _ _ υ hυ _ => ?_
  have hC := hυ.within hC
  dsimp only
  cases decl.init with
  | none => exact bindResult (inst _ hC) E _
  | some init =>
    have hinit : Agree υ same (lift (Eval.alloc (.init init C))) (Eval.alloc (.init init C)) := alloc rfl
    refine hinit.bind fun v _ υ₁ h₁ h => ?_
    subst h
    refine (bindName C _ v).bind fun _ _ υ₂ h₂ _ => ?_
    exact bindResult (inst _ (h₂.within (h₁.within hC))) E _

/-- Statements agree within the receiver. -/
theorem stmt (st : Stmt) (hE : σ.store.Within R E) :
    Agree σ same (Receiver.stmt rec R st E) (Eval.stmt rec' st E) := by
  cases st with
  | var x value =>
    refine (hrec σ R value E hE).bind fun v _ _ _ h => ?_
    exact h ▸ (bindName E x v).bind fun _ _ _ _ _ => pure rfl
  | ret value => exact (hrec σ R value E hE).bind fun v _ _ _ h => h ▸ throw _
  | expr e => exact hrec σ R e E hE
  | function decl =>
    refine (declare decl hE).bind fun f _ _ _ h => ?_
    exact h ▸ (bindName E _ f).bind fun _ _ _ _ _ => pure rfl
  | classDecl decl => exact (defineClass hrec decl E).bind fun _ _ _ _ _ => pure rfl

/-- Statement after statement, with the value of the last one. -/
theorem blockFrom (last : Value) (body : List Stmt) (hE : σ.store.Within R E) :
    Agree σ same (Receiver.blockFrom rec R last body E) (Eval.blockFrom rec' last body E) := by
  induction body generalizing σ last with
  | nil => exact pure rfl
  | cons st body ih => exact (stmt hrec st hE).bind fun v _ τ hτ h => h ▸ ih v (hτ.within hE)

theorem block (body : List Stmt) (hE : σ.store.Within R E) :
    Agree σ same (Receiver.block rec R body E) (Eval.block rec' body E) := blockFrom hrec .null body hE

theorem program (p : Program) (hE : σ.store.Within R E) :
    Agree σ same (Receiver.program rec R p E) (Eval.program rec' p E) := catchReturn (block hrec p hE)

/-! ## Expressions -/

/-- Arguments agree one after the other. -/
theorem exprs (es : List Expr) (hE : σ.store.Within R E) :
    Agree σ same (Receiver.exprs rec R es E) (Eval.exprs rec' es E) := by
  induction es generalizing σ with
  | nil => exact pure rfl
  | cons e es ih =>
    refine (hrec σ R e E hE).bind fun v _ τ hτ h => ?_
    exact (ih (hτ.within hE)).bind fun vs _ _ _ hvs => pure (congrArg₂ List.cons h hvs)

/-- The same condition is the first that holds. -/
theorem conditional (branches : List Branch) (otherwise : Option (List Stmt)) (hE : σ.store.Within R E) :
    Agree σ same (Receiver.conditional rec R branches otherwise E) (Eval.conditional rec' branches otherwise E) := by
  induction branches generalizing σ with
  | nil =>
    cases otherwise with
    | none => exact pure rfl
    | some body => exact block hrec body hE
  | cons b rest ih =>
    refine (hrec σ R b.condition E hE).bind fun v _ τ hτ h => ?_
    subst h
    refine datum fun _ => ?_
    split
    · exact block hrec b.body (hτ.within hE)
    · exact ih (hτ.within hE)

/-- Keys and values agree pair by pair. -/
theorem hashPairs (pairs : List KeyValue) (entries : List HashEntry) (hE : σ.store.Within R E) :
    Agree σ same (Receiver.hashPairs rec R pairs entries E) (Eval.hashPairs rec' pairs entries E) := by
  induction pairs generalizing σ entries with
  | nil => exact alloc rfl
  | cons p rest ih =>
    refine (hrec σ R p.key E hE).bind fun key _ τ hτ h => ?_
    subst h
    refine datum fun _ => ?_
    cases (τ.store.datum key).keyContent? with
    | none => exact fail _
    | some content =>
      have hE := hτ.within hE
      refine (hrec τ R p.value E hE).bind fun value _ υ hυ h => ?_
      subst h
      exact ih _ (hυ.within hE)

/-- The frame of a call is inside of that of the function, so it has the receiver that the function has. -/
theorem callClosure (closure : Closure) (arguments : List Value) (hR : σ.store.Within R closure.frame) :
    Agree σ same (Receiver.callClosure rec R closure arguments) (Eval.callClosure rec' closure arguments) := by
  unfold Receiver.callClosure Eval.callClosure
  dsimp only
  split
  · exact fail_bind _
  · refine (newChild hR).bind fun F _ τ _ h => ?_
    obtain ⟨rfl, hF⟩ := h
    refine (forM fun p υ _ => ?_).bind fun _ _ υ hυ _ => catchReturn (block hrec closure.literal.body (hυ.within hF))
    obtain ⟨x, v⟩ := p
    exact bindName F x v

/-- A function runs for the receiver in the account, whoever calls it. -/
theorem apply (f : Value) (arguments : List Value) :
    Agree σ same (Receiver.apply rec f arguments) (Eval.apply rec' f arguments) := by
  refine datum fun hσ => ?_
  cases hd : σ.store.datum f with
  | null | boolean => exact fail _
  | object o =>
    cases o with
    | function closure => exact callClosure hrec closure arguments (hσ.function hd)
    | builtin b => exact computes (.call b arguments)
    | _ => exact fail _

/-! ## Loops -/

theorem round (x : String) (body : List Stmt) (v : Value) (hE : σ.store.Within R E) :
    Agree σ same (Receiver.round rec R x body E v) (Eval.round rec' x body E v) :=
  (bindName E x v).bind fun _ _ _ hτ _ => block hrec body (hτ.within hE)

/-- The rounds of a loop over numbers, by induction on how many are left. -/
theorem countRounds (x : String) (body : List Stmt) (delta : Int64) (n : Nat) (k : Int64) (last : Value)
    (hE : σ.store.Within R E) : Agree σ same (Receiver.countRounds rec R x body E delta n k last)
      (Eval.countRounds rec' x body E delta n k last) := by
  induction n generalizing σ k last with
  | zero => exact pure rfl
  | succ n ih =>
    have hinteger : Agree σ same (lift (Eval.alloc (.integer k))) (Eval.alloc (.integer k)) := alloc rfl
    refine hinteger.bind fun v _ τ hτ h => ?_
    subst h
    have hE := hτ.within hE
    exact (round hrec x body v hE).bind fun w _ υ hυ h => h ▸ ih (k + delta) w (hυ.within hE)

/-- The rounds of a loop over values, by induction on the list. -/
theorem valueRounds (x : String) (body : List Stmt) (vs : List Value) (last : Value) (hE : σ.store.Within R E) :
    Agree σ same (Receiver.valueRounds rec R x body E vs last) (Eval.valueRounds rec' x body E vs last) := by
  induction vs generalizing σ last with
  | nil => exact pure rfl
  | cons v vs ih => exact (round hrec x body v hE).bind fun w _ τ hτ h => h ▸ ih w (hτ.within hE)

/-- The bounds of a loop agree. -/
theorem loopBound (bound : LoopBound) (e : Expr) (hE : σ.store.Within R E) :
    Agree σ same (Receiver.loopBound rec R bound e E) (Eval.loopBound rec' bound e E) := by
  refine (hrec σ R e E hE).bind fun v _ τ _ h => ?_
  subst h
  refine datum fun _ => ?_
  cases τ.store.datum v with
  | null | boolean => exact fail _
  | object o =>
    cases o with
    | integer n => exact pure rfl
    | _ => exact fail _

theorem rangeFor (x : String) (start stop : Expr) (body : List Stmt) (hE : σ.store.Within R E) :
    Agree σ same (Receiver.rangeFor rec R x start stop body E) (Eval.rangeFor rec' x start stop body E) := by
  refine (loopBound hrec .start start hE).bind fun a _ τ hτ h => ?_
  subst h
  have hE := hτ.within hE
  refine (loopBound hrec .stop stop hE).bind fun b _ υ hυ h => ?_
  subst h
  refine (loopFrame x (hυ.within hE)).bind fun L _ τ' _ h => ?_
  obtain ⟨rfl, hL⟩ := h
  exact countRounds hrec x body _ _ a .null hL

/-- The elements are those that the array has at the start. -/
theorem collectionFor (x collection : String) (body : List Stmt) (hE : σ.store.Within R E) :
    Agree σ same (Receiver.collectionFor rec R x collection body E) (Eval.collectionFor rec' x collection body E) := by
  refine read fun _ => ?_
  cases σ.store.get? E collection with
  | none => exact fail _
  | some target =>
    refine datum fun _ => ?_
    cases σ.store.datum target with
    | null | boolean => exact fail _
    | object o =>
      cases o with
      | array elements =>
        refine (loopFrame x hE).bind fun L _ τ _ h => ?_
        obtain ⟨rfl, hL⟩ := h
        exact valueRounds hrec x body elements .null hL
      | _ => exact fail _

/-! ## Classes and objects -/

variable (library : Library)

omit hrec in
/-- The value of a class that is bound after its unit was run. -/
theorem classValue (className : String) (e : RuntimeError) :
    Agree σ same
      (do
        match (← get).store.get? E className with
        | some v => return v
        | none => Receiver.fail e : Run Value)
      (do
        match (← get).get? E className with
        | some v => return v
        | none => Eval.fail e : Eval Value) := by
  refine read fun _ => ?_
  cases σ.store.get? E className with
  | none => exact fail e
  | some v => exact pure rfl

/-- A unit runs in the frame where its class is wanted, for the same receiver. -/
theorem classOfUnit (className : String) (hE : σ.store.Within R E) :
    Agree σ same (Receiver.classOfUnit library rec R className E) (Eval.classOfUnit library rec' className E) := by
  have hrequest : Agree σ same (lift (modify (·.request className))) (modify (·.request className) : Eval Unit) :=
    still (.change (.withLogs _ _ _))
  refine hrequest.bind fun _ _ τ hτ _ => ?_
  cases library className with
  | error => exact fail _
  | ok source => exact (program hrec _ (hτ.within hE)).bind fun _ _ _ _ _ => classValue className _

/-- The class is in scope on both sides, or the same unit is asked for. -/
theorem findClass (className : String) (hE : σ.store.Within R E) :
    Agree σ same (Receiver.findClass library rec R className E) (Eval.findClass library rec' className E) := by
  refine read fun _ => ?_
  cases σ.store.get? E className with
  | none => exact classOfUnit hrec library className hE
  | some v => exact pure rfl

/-- An argument for a field is evaluated in the new instance, for that as a receiver. -/
theorem initArguments (className : String) {I : FrameId} (F : FrameId) (arguments : List (ConstructorParam × Expr))
    (hI : σ.store.Within I I) (hE : σ.store.Within R E) :
    Agree σ same (Receiver.initArguments rec R className I F arguments E)
      (Eval.initArguments rec' className I F arguments E) := by
  induction arguments generalizing σ with
  | nil => exact pure rfl
  | cons p rest ih =>
    obtain ⟨p, argument⟩ := p
    unfold Receiver.initArguments Eval.initArguments
    dsimp only
    split
    · refine (hrec σ I argument I hI).bind fun v _ τ hτ h => ?_
      subst h
      refine read fun _ => ?_
      cases hs : τ.store.update? I p.name v with
      | none => exact fail_bind _
      | some s =>
        obtain ⟨G, -, rfl⟩ := Option.map_eq_some_iff.1 hs
        have hset : Agree τ same (lift (set (τ.store.set G p.name v))) (set (τ.store.set G p.name v)) :=
          still (.set _ G _ v)
        refine hset.bind fun _ _ υ hυ _ => ?_
        exact ih (hυ.within (hτ.within hI)) (hυ.within (hτ.within hE))
    · refine (hrec σ R argument E hE).bind fun v _ τ hτ h => ?_
      subst h
      refine (bindName F p.name v).bind fun _ _ υ hυ _ => ?_
      exact ih (hυ.within (hτ.within hI)) (hυ.within (hτ.within hE))

/-- A constructor runs for the new instance. -/
theorem construct (className : String) (init : Constructor) {I : FrameId} (arguments : List Expr)
    (hI : σ.store.Within I I) (hE : σ.store.Within R E) :
    Agree σ same (Receiver.construct rec R className init I arguments E)
      (Eval.construct rec' className init I arguments E) := by
  unfold Receiver.construct Eval.construct
  split
  · exact fail_bind _
  · refine (newChild hI).bind fun F _ τ hτ h => ?_
    obtain ⟨rfl, hF⟩ := h
    refine (initArguments hrec className F _ (hτ.within hI) (hτ.within hE)).bind fun _ _ υ hυ _ => ?_
    exact (catchReturn (block hrec init.body (hυ.within hF))).bind fun _ _ _ _ _ => pure rfl

/-- The same constructor is found in the new instance, or none. -/
theorem initInstance (className : String) {I : FrameId} (arguments : List Expr) (hI : σ.store.Within I I)
    (hE : σ.store.Within R E) :
    Agree σ same (Receiver.initInstance rec R className I arguments E)
      (Eval.initInstance rec' className I arguments E) := by
  refine read fun _ => ?_
  cases σ.store.get? I Eval.initName with
  | none =>
    dsimp only
    split
    · exact fail _
    · exact pure rfl
  | some init =>
    refine datum fun _ => ?_
    cases σ.store.datum init with
    | null | boolean => exact fail _
    | object o =>
      cases o with
      | init constructor _ => exact construct hrec className constructor arguments hI hE
      | _ => exact fail _

omit hrec in
/-- The functions of a class become functions for the instance. -/
theorem instanceFrame (T : FrameId) :
    Agree σ sameRoot (Receiver.instanceFrame T) (Eval.ofStore (Store.instanceFrame T)) := by
  have hcopy : Agree σ sameRoot (lift (Eval.ofStore (Store.copyFrame T))) (Eval.ofStore (Store.copyFrame T)) :=
    fun hσ => ⟨rfl, hσ.calm (Store.copyFrame_calm T σ.store).1, rfl, (Store.copyFrame_calm T σ.store).2⟩
  unfold Store.instanceFrame
  rw [Eval.ofStore_bind]
  refine hcopy.bind fun I _ τ _ h => ?_
  obtain ⟨rfl, hI⟩ := h
  rw [Eval.ofStore_read]
  refine read fun _ => ?_
  rw [Eval.ofStore_bind, Eval.ofStore_forM]
  refine (forM fun p υ hυ => ?_).bind fun _ _ υ hυ _ => pure ⟨rfl, hυ.within hI⟩
  obtain ⟨x, closure⟩ := p
  dsimp only
  rw [Eval.ofStore_bind]
  refine (makeFunction (hυ.within hI)).bind fun f _ _ _ h => ?_
  exact h ▸ bindName I x f

/-- The new instance is made for no receiver but itself. -/
theorem instantiate (className name : String) (T : FrameId) (arguments : List Expr) (hE : σ.store.Within R E) :
    Agree σ same (Receiver.instantiate rec R className name T arguments E)
      (Eval.instantiate rec' className name T arguments E) := by
  refine (instanceFrame T).bind fun I _ τ hτ h => ?_
  obtain ⟨rfl, hI⟩ := h
  exact (initInstance hrec className arguments hI (hτ.within hE)).bind fun _ _ υ hυ _ => inst name (hυ.within hI)

/-- The class is found, and then its instance made. -/
theorem makeInstance (className : String) (arguments : List Expr) (hE : σ.store.Within R E) :
    Agree σ same (Receiver.makeInstance library rec R className arguments E)
      (Eval.makeInstance library rec' className arguments E) := by
  refine (findClass hrec library className hE).bind fun v _ τ hτ h => ?_
  subst h
  refine datum fun _ => ?_
  cases τ.store.datum v with
  | null | boolean => exact fail _
  | object o =>
    cases o with
    | inst name T => exact instantiate hrec className name T arguments (hτ.within hE)
    | _ => exact fail _

/-- A method that is found, with the receiver for which it was made. -/
def SameMethod (σ : State) (found : FrameId × Closure × FrameId) (found' : Closure × FrameId) : Prop :=
  found.2 = found' ∧ σ.store.Within found.1 found.2.1.frame ∧ σ.store.Within found.2.2 found.2.2

omit hrec in
/-- The same method is found, and the receiver is the object on which it is called. -/
theorem findMethod (object method : String) (hE : σ.store.Within R E) :
    Agree σ SameMethod (Receiver.findMethod R object method E) (Eval.findMethod object method E) := by
  refine read fun _ => ?_
  cases σ.store.get? E object with
  | none => exact fail _
  | some target =>
    refine datum fun hσ => ?_
    cases hI : σ.store.datum target with
    | null | boolean => exact fail _
    | object o =>
      cases o with
      | inst name I =>
        refine read fun _ => ?_
        cases σ.store.get? I method with
        | none => exact fail _
        | some f =>
          refine datum fun _ => ?_
          cases hf : σ.store.datum f with
          | null | boolean => exact fail _
          | object o =>
            cases o with
            | function closure =>
              have hfound : SameMethod σ (σ.madeFor f, closure, I) (closure, I) :=
                ⟨rfl, hσ.function hf, hσ.object hI⟩
              intro _
              dsimp only
              rw [Eval.get_bind, hE.root_eq]
              split
              · exact fail_bind _ hσ
              · exact pure hfound hσ
            | _ => exact fail _
      | _ => exact fail _

/-- Arguments of a method call are evaluated for the object on which it is called. -/
theorem callMethod (object method : String) (arguments : List Expr) (hE : σ.store.Within R E) :
    Agree σ same (Receiver.callMethod rec R object method arguments E)
      (Eval.callMethod rec' object method arguments E) := by
  refine (findMethod object method hE).bind fun found found' τ hτ h => ?_
  obtain ⟨M, closure, I⟩ := found
  obtain ⟨rfl, hM, hI⟩ := h
  refine (exprs hrec arguments hI).bind fun vs _ υ hυ h => ?_
  subst h
  exact callClosure hrec closure vs (hυ.within hM)

/-! ## One expression -/

/-- Every expression agrees within the receiver. -/
theorem node (e : Expr) (hE : σ.store.Within R E) :
    Agree σ same (Receiver.node library rec R e E) (Eval.node library rec' e E) := by
  cases e with
  | null => exact pure rfl
  | name x => exact computes (.readName x E)
  | thisName x => exact readThis x hE
  | integer n => exact alloc rfl
  | real x => exact alloc rfl
  | text t => exact alloc rfl
  | boolean b => exact pure rfl
  | unary op operand =>
    refine (hrec σ R operand E hE).bind fun v _ τ _ h => ?_
    subst h
    exact computes (.operator (Eval.gives_unary op _))
  | binary op left right =>
    have hboth : Agree σ same
        (do
          let l ← rec R left E
          let r ← rec R right E
          lift do Eval.give (← Eval.ofExcept (Operator.binary (← get) op l r)))
        (do
          let l ← rec' left E
          let r ← rec' right E
          Eval.give (← Eval.ofExcept (Operator.binary (← get) op l r))) := by
      refine (hrec σ R left E hE).bind fun l _ τ hτ h => ?_
      subst h
      refine (hrec τ R right E (hτ.within hE)).bind fun r _ υ _ h => ?_
      subst h
      exact computes (.operator (Eval.gives_binary _ op l r))
    cases op with
    | assign => exact assign hrec left right hE
    | _ => exact hboth
  | conditional branches otherwise => exact conditional hrec branches otherwise hE
  | function literal => exact makeFunction hE
  | call function arguments =>
    refine (hrec σ R function E hE).bind fun f _ τ hτ h => ?_
    subst h
    exact (exprs hrec arguments (hτ.within hE)).bind fun vs _ _ _ h => h ▸ apply hrec f vs
  | array elements => exact (exprs hrec elements hE).bind fun vs _ _ _ h => h ▸ alloc rfl
  | index container index =>
    refine (hrec σ R container E hE).bind fun c _ τ hτ h => ?_
    subst h
    refine (hrec τ R index E (hτ.within hE)).bind fun i _ υ _ h => ?_
    subst h
    exact computes (.ofExcept _)
  | hash pairs => exact hashPairs hrec pairs [] hE
  | rangeFor x start stop body => exact rangeFor hrec x start stop body hE
  | collectionFor x collection body => exact collectionFor hrec x collection body hE
  | new className arguments => exact makeInstance hrec library className arguments hE
  | methodCall object method arguments => exact callMethod hrec object method arguments hE
  | increment x => exact computes (.step x true E)
  | decrement x => exact computes (.step x false E)

end Agree

/-- **Evaluation for a receiver.** In a frame within the receiver, evaluation for a receiver is evaluation. -/
theorem expr_agrees (library : Library) (n : Nat) : Agrees (expr library n) (Eval.expr library n) := by
  induction n with
  | zero => exact fun _ _ _ _ _ => .throw .tooDeep
  | succ n ih => exact fun _ _ e _ hE => .node ih library e hE

end Receiver

end Pron
