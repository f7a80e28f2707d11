import Pron.Proofs.Simulation.Builtin
import Pron.Proofs.Simulation.Copy

/-!
# Evaluation under a simulation

When the evaluators of the expressions inside follow each other, so do those of whole expressions, statements, blocks,
calls, loops and classes (`Simulation.Follows.node`), but for `x++` and `x--`, which change an integer: whether they
keep the stores in correspondence is asked of each simulation (`Simulation.Steps`). By induction on the depth,
evaluations of every expression follow each other (`Simulation.expr`).
-/

namespace Pron

namespace Simulation

variable {S : Simulation} {w w' : S.World} {s t : Store} {E F : FrameId} {u v : Value} {α β : Type}

/-- Evaluators of expressions that follow each other in all worlds. -/
def Recs (S : Simulation) (rec₁ rec₂ : Expr → FrameId → Eval Value) : Prop :=
  ∀ (w : S.World) (e : Expr) {E F : FrameId}, (S.matching w).frame E F →
    Follows w values (rec₁ e E) (rec₂ e F)

namespace Follows

variable {rec₁ rec₂ : Expr → FrameId → Eval Value} (hrec : S.Recs rec₁ rec₂)

/-! ## Names -/

/-- A name has corresponding values, or is that of the same built-in function, or is missing on both sides. -/
theorem readName (x : String) (hE : (S.matching w).frame E F) :
    Follows w values (Eval.readName x E) (Eval.readName x F) := by
  refine read fun s t hs => ?_
  rcases rel_cases (get? hs hE x) with ⟨h₁, h₂⟩ | ⟨u, v, h₁, h₂, huv⟩
  · rw [h₁, h₂]
    dsimp only
    cases Builtin.ofName? x with
    | none => exact fail _ hs
    | some b => exact alloc (.builtin b) hs
  · rw [h₁, h₂]
    exact pure huv hs

/-- A field of the receiver is found in frames that correspond. -/
theorem readThis (x : String) (hE : (S.matching w).frame E F) :
    Follows w values (Eval.readThis x E) (Eval.readThis x F) := by
  refine read fun s t hs => ?_
  rcases rel_cases (rootValue? hs hE x) with ⟨h₁, h₂⟩ | ⟨u, v, h₁, h₂, huv⟩
  · rw [h₁, h₂]
    exact fail _ hs
  · rw [h₁, h₂]
    exact pure huv hs

/-- The new value of a name is stored, if the name is bound. -/
theorem store {f g : Store → Option Store} {e : RuntimeError}
    (h : ∀ s t, S.stores w s t → Option.Rel (Later w) (f s) (g t)) (huv : (S.matching w).value u v) :
    Follows w values
      (do
        match f (← get) with
        | some s => MonadStateOf.set s; return u
        | none => Eval.fail e : Eval Value)
      (do
        match g (← get) with
        | some t => MonadStateOf.set t; return v
        | none => Eval.fail e : Eval Value) := by
  refine read fun s t hs => ?_
  rcases rel_cases (h s t hs) with ⟨h₁, h₂⟩ | ⟨s', t', h₁, h₂, w', hw, hs'⟩
  · rw [h₁, h₂]
    exact fail e hs
  · rw [h₁, h₂]
    exact ⟨w', hw, hs', (S.mono hw).value huv⟩

include hrec

/-- A name is assigned to in frames that correspond, or the same error is given. -/
theorem assign (target value : Expr) (hE : (S.matching w).frame E F) :
    Follows w values (Eval.assign rec₁ target value E) (Eval.assign rec₂ target value F) := by
  cases target with
  | name x =>
    refine (hrec w value hE).bind fun w' u v hw huv => ?_
    exact store (fun s t hs => update? hs ((S.mono hw).frame hE) x huv) huv
  | thisName x =>
    refine (hrec w value hE).bind fun w' u v hw huv => ?_
    exact store (fun s t hs => updateRoot? hs ((S.mono hw).frame hE) x huv) huv
  | _ => exact fail _

/-! ## Statements -/

omit hrec in
/-- Functions that are made in corresponding frames correspond. -/
theorem declare (decl : FunctionDecl) (hE : (S.matching w).frame E F) :
    Follows w values (Eval.declare decl E) (Eval.declare decl F) := alloc (.function _ _ hE)

/-- Classes have new frames on both sides, in which the same is bound. -/
theorem defineClass (decl : ClassDecl) (hE : (S.matching w).frame E F) :
    Follows w done (Eval.defineClass rec₁ decl E) (Eval.defineClass rec₂ decl F) := by
  refine newRoot.bind fun w₁ C D h₁ hC => ?_
  have hfields : Follows w₁ done
      (decl.fields.forM fun field => do Eval.bind C field.name (← rec₁ field.value C))
      (decl.fields.forM fun field => do Eval.bind D field.name (← rec₂ field.value D)) := by
    refine forM_self _ fun w' field hw => ?_
    have hC' := S.owner_frame ((S.mono hw).owner hC)
    exact (hrec w' _ hC').bind fun w'' u v hw' huv => bindName ((S.mono hw').frame hC') _ huv
  refine hfields.bind fun w₂ _ _ h₂ _ => ?_
  have hC₂ := (S.mono h₂).owner hC
  have hmethods : Follows w₂ done
      (decl.methods.forM fun method => do Eval.bind C method.name (← Eval.declare method C))
      (decl.methods.forM fun method => do Eval.bind D method.name (← Eval.declare method D)) := by
    refine forM_self _ fun w' method hw => ?_
    have hC' := S.owner_frame ((S.mono hw).owner hC₂)
    exact (declare method hC').bind fun w'' u v hw' huv => bindName ((S.mono hw').frame hC') _ huv
  refine hmethods.bind fun w₃ _ _ h₃ _ => ?_
  have hC₃ := (S.mono h₃).owner hC₂
  have hE₃ := (S.mono (S.trans h₁ (S.trans h₂ h₃))).frame hE
  -- the class itself is bound where it is declared
  have hclass (w₄ : S.World) (h₄ : S.Le w₃ w₄) : Follows w₄ done
      (do Eval.bind E decl.name (← Eval.alloc (.inst decl.name C)))
      (do Eval.bind F decl.name (← Eval.alloc (.inst decl.name D))) :=
    (alloc (.inst _ ((S.mono h₄).owner hC₃))).bind fun w₅ u v h₅ huv =>
      bindName ((S.mono (S.trans h₄ h₅)).frame hE₃) _ huv
  dsimp only
  cases decl.init with
  | none => exact hclass w₃ (S.refl w₃)
  | some init =>
    refine (alloc (.init init (S.owner_maker hC₃))).bind fun w₄ u v h₄ huv => ?_
    refine (bindName ((S.mono h₄).frame (S.owner_frame hC₃)) _ huv).bind fun w₅ _ _ h₅ _ => ?_
    exact hclass w₅ (S.trans h₄ h₅)

/-- The same statement is run on both sides. -/
theorem stmt (st : Stmt) (hE : (S.matching w).frame E F) :
    Follows w values (Eval.stmt rec₁ st E) (Eval.stmt rec₂ st F) := by
  cases st with
  | var x value =>
    refine (hrec w value hE).bind fun w₁ u v h₁ huv => ?_
    exact (bindName ((S.mono h₁).frame hE) x huv).bind fun w₂ _ _ _ _ => pure (S.null w₂)
  | ret value => exact (hrec w value hE).bind fun w₁ u v _ huv => throw (.returned huv)
  | expr e => exact hrec w e hE
  | function decl =>
    refine (declare decl hE).bind fun w₁ u v h₁ huv => ?_
    exact (bindName ((S.mono h₁).frame hE) _ huv).bind fun w₂ _ _ _ _ => pure (S.null w₂)
  | classDecl decl => exact (defineClass hrec decl hE).bind fun w₁ _ _ _ _ => pure (S.null w₁)

/-- Statement after statement, with the corresponding values of the last ones. -/
theorem blockFrom (body : List Stmt) (hE : (S.matching w).frame E F) (huv : (S.matching w).value u v) :
    Follows w values (Eval.blockFrom rec₁ u body E) (Eval.blockFrom rec₂ v body F) := by
  induction body generalizing w u v with
  | nil => exact pure huv
  | cons st body ih =>
    exact (stmt hrec st hE).bind fun w₁ u v h₁ huv => ih ((S.mono h₁).frame hE) huv

theorem block (body : List Stmt) (hE : (S.matching w).frame E F) :
    Follows w values (Eval.block rec₁ body E) (Eval.block rec₂ body F) := blockFrom hrec body hE (S.null w)

theorem program (p : Program) (hE : (S.matching w).frame E F) :
    Follows w values (Eval.program rec₁ p E) (Eval.program rec₂ p F) := catchReturn (block hrec p hE)

/-! ## Expressions -/

/-- The same arguments have corresponding values. -/
theorem exprs (es : List Expr) (hE : (S.matching w).frame E F) :
    Follows w (fun w => List.Forall₂ (S.matching w).value) (Eval.exprs rec₁ es E) (Eval.exprs rec₂ es F) := by
  induction es generalizing w with
  | nil => exact pure .nil
  | cons e es ih =>
    refine (hrec w e hE).bind fun w₁ u v h₁ huv => ?_
    exact (ih ((S.mono h₁).frame hE)).bind fun w₂ us vs h₂ h => pure (.cons ((S.mono h₂).value huv) h)

/-- A condition that holds on one side does so on the other. -/
theorem conditional (branches : List Branch) (otherwise : Option (List Stmt)) (hE : (S.matching w).frame E F) :
    Follows w values (Eval.conditional rec₁ branches otherwise E) (Eval.conditional rec₂ branches otherwise F) := by
  induction branches generalizing w with
  | nil =>
    cases otherwise with
    | none => exact pure (S.null w)
    | some body => exact block hrec body hE
  | cons b rest ih =>
    refine (hrec w b.condition hE).bind fun w₁ u v h₁ huv => datum huv fun d e hde => ?_
    have hE₂ := (S.mono h₁).frame hE
    rw [hde.isTruthy_eq]
    split
    · exact block hrec b.body hE₂
    · exact ih hE₂

/-- The keys of a literal have to stay what they are while it is being evaluated. -/
theorem hashPairs (hquiet : ∀ {w w'}, S.Le w w' → S.Quiet w w') (pairs : List KeyValue) {ds es : List HashEntry}
    (hE : (S.matching w).frame E F) (h : (S.matching w).Entries ds es) :
    Follows w values (Eval.hashPairs rec₁ pairs ds E) (Eval.hashPairs rec₂ pairs es F) := by
  induction pairs generalizing w ds es with
  | nil => exact alloc (.hash h)
  | cons p rest ih =>
    refine (hrec w p.key hE).bind fun w₁ k l h₁ hkl => key hkl fun d e hde hfiled => ?_
    rw [← hde.keyContent?_eq, ← hde.type_eq]
    split
    · exact fail _
    · rename_i content hc
      have hE₁ := (S.mono h₁).frame hE
      refine (hrec w₁ p.value hE₁).bind fun w₂ u v h₂ huv => ih ((S.mono h₂).frame hE₁) ?_
      have hentries := entries_mono (hquiet (S.trans h₁ h₂)) h
      exact hentries.insert ⟨rfl, S.filed_mono (hquiet h₂) (hfiled _ hc), (S.mono h₂).value hkl, huv⟩

/-- The bodies are the same text, and the frames of the calls lie inside of corresponding ones. -/
theorem callClosure {literal : FunctionLit} {isPublic : Bool} {us vs : List Value}
    (hE : (S.matching w).frame E F) (h : List.Forall₂ (S.matching w).value us vs) :
    Follows w values (Eval.callClosure rec₁ ⟨literal, E, isPublic⟩ us)
      (Eval.callClosure rec₂ ⟨literal, F, isPublic⟩ vs) := by
  unfold Eval.callClosure
  dsimp only
  rw [h.length_eq]
  split
  · exact fail_bind _
  · refine (newChild hE).bind fun w₁ G H h₁ hG => ?_
    have hzip : List.Forall₂ (fun p q => p.1 = q.1 ∧ (S.matching w₁).value p.2 q.2)
        (literal.parameters.zip us) (literal.parameters.zip vs) :=
      forall₂_zip _ (Matching.forall₂_value_mono (S.mono h₁) h)
    refine (forM hzip fun w₂ p q h₂ hpq => ?_).bind fun w₂ _ _ h₂ _ => ?_
    · obtain ⟨x, u⟩ := p
      obtain ⟨y, v⟩ := q
      obtain ⟨rfl, huv⟩ := hpq
      exact bindName ((S.mono h₂).frame hG) x ((S.mono h₂).value huv)
    · exact catchReturn (block hrec literal.body ((S.mono h₂).frame hG))

/-- Functions that correspond are called alike. -/
theorem apply {us vs : List Value} (huv : (S.matching w).value u v)
    (h : List.Forall₂ (S.matching w).value us vs) :
    Follows w values (Eval.apply rec₁ u us) (Eval.apply rec₂ v vs) := by
  refine datum huv fun d e hde => ?_
  cases hde with
  | null | boolean => exact fail _
  | object ho =>
    cases ho with
    | function _ _ hE => exact callClosure hrec hE h
    | builtin b => exact call b h
    | _ => exact fail _

/-! ## Loops -/

theorem round (x : String) (body : List Stmt) (hE : (S.matching w).frame E F) (huv : (S.matching w).value u v) :
    Follows w values (Eval.round rec₁ x body E u) (Eval.round rec₂ x body F v) :=
  (bindName hE x huv).bind fun _ _ _ h₁ _ => block hrec body ((S.mono h₁).frame hE)

/-- The rounds of a loop over numbers, by induction on how many are left. -/
theorem countRounds (x : String) (body : List Stmt) (delta : Int64) (n : Nat) (k : Int64)
    (hE : (S.matching w).frame E F) (huv : (S.matching w).value u v) :
    Follows w values (Eval.countRounds rec₁ x body E delta n k u) (Eval.countRounds rec₂ x body F delta n k v) := by
  induction n generalizing w k u v with
  | zero => exact pure huv
  | succ n ih =>
    refine (alloc (.integer k)).bind fun w₁ i j h₁ hij => ?_
    have hE₁ := (S.mono h₁).frame hE
    exact (round hrec x body hE₁ hij).bind fun w₂ u v h₂ huv => ih (k + delta) ((S.mono h₂).frame hE₁) huv

/-- The rounds of a loop over values, by induction on both lists. -/
theorem valueRounds (x : String) (body : List Stmt) {us vs : List Value} (hE : (S.matching w).frame E F)
    (h : List.Forall₂ (S.matching w).value us vs) (huv : (S.matching w).value u v) :
    Follows w values (Eval.valueRounds rec₁ x body E us u) (Eval.valueRounds rec₂ x body F vs v) := by
  induction us generalizing w vs u v with
  | nil => cases h; exact pure huv
  | cons i us ih =>
    obtain ⟨j, vs, hij, hrest, rfl⟩ := List.forall₂_cons_left_iff.1 h
    refine (round hrec x body hE hij).bind fun w₁ u v h₁ huv => ?_
    exact ih ((S.mono h₁).frame hE) (Matching.forall₂_value_mono (S.mono h₁) hrest) huv

omit hrec in
theorem loopFrame (x : String) (hE : (S.matching w).frame E F) :
    Follows w (fun w => (S.matching w).frame) (Eval.loopFrame x E) (Eval.loopFrame x F) := by
  refine (newChild hE).bind fun w₁ G H h₁ hG => ?_
  exact (bindName hG x (S.null w₁)).bind fun w₂ _ _ h₂ _ => pure ((S.mono h₂).frame hG)

/-- A bound is the same number on both sides. -/
theorem loopBound (bound : LoopBound) (e : Expr) (hE : (S.matching w).frame E F) :
    Follows w (fun _ => Eq) (Eval.loopBound rec₁ bound e E) (Eval.loopBound rec₂ bound e F) := by
  refine (hrec w e hE).bind fun w₁ u v h₁ huv => datum huv fun d e hde => ?_
  cases hde with
  | null | boolean => exact fail _
  | object ho =>
    cases ho with
    | integer => exact pure rfl
    | _ => exact fail _

/-- Both sides count through the same numbers. -/
theorem rangeFor (x : String) (start stop : Expr) (body : List Stmt) (hE : (S.matching w).frame E F) :
    Follows w values (Eval.rangeFor rec₁ x start stop body E) (Eval.rangeFor rec₂ x start stop body F) := by
  refine (loopBound hrec .start start hE).bind fun w₁ a _ h₁ ha => ?_
  subst ha
  have hE₁ := (S.mono h₁).frame hE
  refine (loopBound hrec .stop stop hE₁).bind fun w₂ b _ h₂ hb => ?_
  subst hb
  refine (loopFrame x ((S.mono h₂).frame hE₁)).bind fun w₃ G H h₃ hG => ?_
  exact countRounds hrec x body _ _ a hG (S.null w₃)

/-- Both sides go through corresponding elements. -/
theorem collectionFor (x collection : String) (body : List Stmt) (hE : (S.matching w).frame E F) :
    Follows w values (Eval.collectionFor rec₁ x collection body E)
      (Eval.collectionFor rec₂ x collection body F) := by
  refine read fun s t hs => ?_
  rcases rel_cases (get? hs hE collection) with ⟨h₁, h₂⟩ | ⟨u, v, h₁, h₂, huv⟩
  · rw [h₁, h₂]
    exact fail _ hs
  · rw [h₁, h₂]
    refine datum huv (fun d e hde => ?_) hs
    cases hde with
    | null | boolean => exact fail _
    | object ho =>
      cases ho with
      | array h =>
        refine (loopFrame x hE).bind fun w₂ G H hw₂ hG => ?_
        exact valueRounds hrec x body hG (Matching.forall₂_value_mono (S.mono hw₂) h) (S.null w₂)
      | _ => exact fail _

/-! ## Classes and objects -/

variable (library : Library)

/-- The same unit is asked for on both sides, and run there. -/
theorem classOfUnit (className : String) (hE : (S.matching w).frame E F) :
    Follows w values (Eval.classOfUnit library rec₁ className E)
      (Eval.classOfUnit library rec₂ className F) := by
  have hrequest : Follows w done (modify (·.request className) : Eval Unit) (modify (·.request className)) := by
    refine change fun s t hs => ?_
    obtain ⟨w', hw, hs'⟩ := S.request className hs
    exact ⟨w', S.quiet_le hw, hs'⟩
  refine hrequest.bind fun w₁ _ _ h₁ _ => ?_
  cases library className with
  | error => exact fail _
  | ok source =>
    have hE₁ := (S.mono h₁).frame hE
    refine (program hrec _ hE₁).bind fun w₂ _ _ h₂ _ => read fun s t hs => ?_
    rcases rel_cases (get? hs ((S.mono h₂).frame hE₁) className) with ⟨h₁, h₂⟩ | ⟨u, v, h₁, h₂, huv⟩
    · rw [h₁, h₂]
      exact fail _ hs
    · rw [h₁, h₂]
      exact pure huv hs

/-- A class is in scope on both sides or on neither. -/
theorem findClass (className : String) (hE : (S.matching w).frame E F) :
    Follows w values (Eval.findClass library rec₁ className E) (Eval.findClass library rec₂ className F) := by
  refine read fun s t hs => ?_
  rcases rel_cases (get? hs hE className) with ⟨h₁, h₂⟩ | ⟨u, v, h₁, h₂, huv⟩
  · rw [h₁, h₂]
    exact classOfUnit hrec library className hE hs
  · rw [h₁, h₂]
    exact pure huv hs

/-- Arguments of a constructor are evaluated in corresponding frames, new ones or those of the caller. -/
theorem initArguments (className : String) {I J G H : FrameId} (arguments : List (ConstructorParam × Expr))
    (hI : (S.matching w).frame I J) (hG : (S.matching w).frame G H) (hE : (S.matching w).frame E F) :
    Follows w done (Eval.initArguments rec₁ className I G arguments E)
      (Eval.initArguments rec₂ className J H arguments F) := by
  induction arguments generalizing w with
  | nil => exact pure trivial
  | cons p rest ih =>
    obtain ⟨p, argument⟩ := p
    unfold Eval.initArguments
    split
    · refine (hrec w argument hI).bind fun w₁ u v h₁ huv => read fun s t hs => ?_
      have hM := S.mono h₁
      rcases rel_cases (update? hs (hM.frame hI) p.name huv) with ⟨h₁, h₂⟩ | ⟨s', t', h₁, h₂, w₂, hw₂, hs'⟩
      · rw [h₁, h₂]
        exact fail_bind _ hs
      · rw [h₁, h₂]
        have hM₂ := S.mono hw₂
        exact (ih (hM₂.frame (hM.frame hI)) (hM₂.frame (hM.frame hG)) (hM₂.frame (hM.frame hE)) hs').mono hw₂
    · refine (hrec w argument hE).bind fun w₁ u v h₁ huv => ?_
      have hM := S.mono h₁
      refine (bindName (hM.frame hG) p.name huv).bind fun w₂ _ _ h₂ _ => ?_
      have hM₂ := S.mono h₂
      exact ih (hM₂.frame (hM.frame hI)) (hM₂.frame (hM.frame hG)) (hM₂.frame (hM.frame hE))

/-- The same constructor runs in corresponding new frames. -/
theorem construct (className : String) (init : Constructor) {I J : FrameId} (arguments : List Expr)
    (hI : (S.matching w).frame I J) (hE : (S.matching w).frame E F) :
    Follows w done (Eval.construct rec₁ className init I arguments E)
      (Eval.construct rec₂ className init J arguments F) := by
  unfold Eval.construct
  dsimp only
  split
  · exact fail_bind _
  · refine (newChild hI).bind fun w₁ G H h₁ hG => ?_
    have hM := S.mono h₁
    refine (initArguments hrec className _ (hM.frame hI) hG (hM.frame hE)).bind fun w₂ _ _ h₂ _ => ?_
    exact (catchReturn (block hrec init.body ((S.mono h₂).frame hG))).bind fun _ _ _ _ _ => pure trivial

/-- There is a constructor on both sides or on neither. -/
theorem initInstance (className : String) {I J : FrameId} (arguments : List Expr)
    (hI : (S.matching w).frame I J) (hE : (S.matching w).frame E F) :
    Follows w done (Eval.initInstance rec₁ className I arguments E)
      (Eval.initInstance rec₂ className J arguments F) := by
  refine read fun s t hs => ?_
  rcases rel_cases (get? hs hI Eval.initName) with ⟨h₁, h₂⟩ | ⟨u, v, h₁, h₂, huv⟩
  · rw [h₁, h₂]
    dsimp only
    split
    · exact fail _ hs
    · exact pure trivial hs
  · rw [h₁, h₂]
    refine datum huv (fun d e hde => ?_) hs
    cases hde with
    | null | boolean => exact fail _
    | object ho =>
      cases ho with
      | init constructor _ => exact construct hrec className constructor arguments hI hE
      | _ => exact fail _

/-- Corresponding classes have instances that correspond. -/
theorem instantiate (className name : String) {T U : FrameId} (arguments : List Expr)
    (hT : (S.matching w).owner T U) (hE : (S.matching w).frame E F) :
    Follows w values (Eval.instantiate rec₁ className name T arguments E)
      (Eval.instantiate rec₂ className name U arguments F) := by
  refine (instanceFrame hT).bind fun w₁ I J h₁ hI => ?_
  have hinit := initInstance hrec className arguments (S.owner_frame hI) ((S.mono h₁).frame hE)
  exact hinit.bind fun w₂ _ _ h₂ _ => alloc (.inst name ((S.mono h₂).owner hI))

/-- The class is found, and then its instance made, on both sides. -/
theorem makeInstance (className : String) (arguments : List Expr) (hE : (S.matching w).frame E F) :
    Follows w values (Eval.makeInstance library rec₁ className arguments E)
      (Eval.makeInstance library rec₂ className arguments F) := by
  refine (findClass hrec library className hE).bind fun w₁ u v h₁ huv => datum huv fun d e hde => ?_
  cases hde with
  | null | boolean => exact fail _
  | object ho =>
    cases ho with
    | inst name hT => exact instantiate hrec className name arguments hT ((S.mono h₁).frame hE)
    | _ => exact fail _

omit hrec in
/-- The closure and the instance of a method that is found. The frames around the call need not correspond: all that
counts is to what they bind the name, and in which frame they are outermost. -/
theorem findMethod (object method : String)
    (hget : ∀ s t, S.stores w s t → Option.Rel (S.matching w).value (s.get? E object) (t.get? F object))
    (hroot : ∀ s t I J, S.stores w s t → (S.matching w).frame I J → (s.root E = I ↔ t.root F = J)) :
    Follows w (fun w (p q : Closure × FrameId) => p.1.literal = q.1.literal ∧ p.1.isPublic = q.1.isPublic ∧
        (S.matching w).frame p.1.frame q.1.frame ∧ (S.matching w).frame p.2 q.2)
      (Eval.findMethod object method E) (Eval.findMethod object method F) := by
  refine read fun s t hs => ?_
  rcases rel_cases (hget s t hs) with ⟨h₁, h₂⟩ | ⟨u, v, h₁, h₂, huv⟩
  · rw [h₁, h₂]
    exact fail _ hs
  rw [h₁, h₂]
  refine datum huv (fun d e hde => ?_) hs
  cases hde with
  | null | boolean => exact fail _
  | object ho =>
    cases ho with
    | inst name hI =>
      refine read fun s t hs => ?_
      have hI := S.owner_frame hI
      rcases rel_cases (get? hs hI method) with ⟨h₁, h₂⟩ | ⟨u, v, h₁, h₂, huv⟩
      · rw [h₁, h₂]
        exact fail _ hs
      rw [h₁, h₂]
      refine datum huv (fun d e hde => ?_) hs
      cases hde with
      | null | boolean => exact fail _
      | object ho =>
        cases ho with
        | function literal isPublic hG =>
          refine read fun s t hs => ?_
          have hprivate := hroot s t _ _ hs hI
          simp only [hprivate, ne_eq]
          split
          · exact fail_bind _ hs
          · exact pure ⟨rfl, rfl, hG, hI⟩ hs
        | _ => exact fail _
    | _ => exact fail _

/-- A function is called with arguments that are evaluated in a frame of their own. -/
theorem callWith {literal : FunctionLit} {isPublic : Bool} {G H I J : FrameId} (arguments : List Expr)
    (hG : (S.matching w).frame G H) (hI : (S.matching w).frame I J) :
    Follows w values (Eval.exprs rec₁ arguments I >>= Eval.callClosure rec₁ ⟨literal, G, isPublic⟩)
      (Eval.exprs rec₂ arguments J >>= Eval.callClosure rec₂ ⟨literal, H, isPublic⟩) :=
  (exprs hrec arguments hI).bind fun _ _ _ h₁ h => callClosure hrec ((S.mono h₁).frame hG) h

/-- The same method is found and called, with arguments that are evaluated in the frames of the instances. -/
theorem callMethod (object method : String) (arguments : List Expr)
    (hget : ∀ s t, S.stores w s t → Option.Rel (S.matching w).value (s.get? E object) (t.get? F object))
    (hroot : ∀ s t I J, S.stores w s t → (S.matching w).frame I J → (s.root E = I ↔ t.root F = J)) :
    Follows w values (Eval.callMethod rec₁ object method arguments E)
      (Eval.callMethod rec₂ object method arguments F) := by
  refine (findMethod object method hget hroot).bind fun w₁ p q h₁ hpq => ?_
  obtain ⟨⟨literal, G, isPublic⟩, I⟩ := p
  obtain ⟨⟨literal', H, isPublic'⟩, J⟩ := q
  obtain ⟨rfl, rfl, hG, hI⟩ := hpq
  exact callWith hrec arguments hG hI

/-! ## One expression -/

omit hrec in
/-- One expression, on stores where `x++` and `x--` and literals of hashes agree. -/
theorem node (hrec : S.Recs rec₁ rec₂) (e : Expr) (hE : (S.matching w).frame E F)
    (hs : S.stores w s t)
    (hstep : ∀ x up, e = (if up then .increment x else .decrement x) →
      Agree w values (Eval.step x up E s) (Eval.step x up F t))
    (hhash : ∀ pairs, e = .hash pairs →
      Agree w values (Eval.hashPairs rec₁ pairs [] E s) (Eval.hashPairs rec₂ pairs [] F t)) :
    Agree w values (Eval.node library rec₁ e E s) (Eval.node library rec₂ e F t) := by
  cases e with
  | null => exact pure (S.null w) hs
  | name x => exact readName x hE hs
  | thisName x => exact readThis x hE hs
  | integer n => exact alloc (.integer n) hs
  | real x => exact alloc (.real x) hs
  | text t => exact alloc (.text t) hs
  | boolean b => exact pure (S.boolean w b) hs
  | unary op operand =>
    refine (hrec w operand hE).bind (fun w₁ u v h₁ huv => datum huv fun d e hde => ?_) hs
    exact (ofExcept (R := fun w => (S.matching w).Datum) (Matching.unary op hde)).bind fun _ _ _ _ h => give h
  | binary op left right =>
    have hboth : Follows w values
        (do
          let l ← rec₁ left E
          let r ← rec₁ right E
          Eval.give (← Eval.ofExcept (Operator.binary (← get) op l r)))
        (do
          let l ← rec₂ left F
          let r ← rec₂ right F
          Eval.give (← Eval.ofExcept (Operator.binary (← get) op l r))) := by
      refine (hrec w left hE).bind fun w₁ l l' h₁ hl => ?_
      refine (hrec w₁ right ((S.mono h₁).frame hE)).bind fun w₂ r r' h₂ hr => read fun s t hs => ?_
      have h := binary hs op ((S.mono h₂).value hl) hr
      exact (ofExcept (R := fun w => (S.matching w).Datum) h).bind (fun _ _ _ _ h => give h) hs
    cases op with
    | assign => exact assign hrec left right hE hs
    | _ => exact hboth hs
  | conditional branches otherwise => exact conditional hrec branches otherwise hE hs
  | function literal => exact alloc (.function _ _ hE) hs
  | call function arguments =>
    refine (hrec w function hE).bind (fun w₁ u v h₁ huv => ?_) hs
    refine (exprs hrec arguments ((S.mono h₁).frame hE)).bind fun w₂ us vs h₂ h => ?_
    exact apply hrec ((S.mono h₂).value huv) h
  | array elements => exact (exprs hrec elements hE).bind (fun _ _ _ _ h => alloc (.array h)) hs
  | index container index =>
    refine (hrec w container hE).bind (fun w₁ c d h₁ hc => ?_) hs
    refine (hrec w₁ index ((S.mono h₁).frame hE)).bind fun w₂ i j h₂ hi => read fun s t hs => ?_
    exact ofExcept (Simulation.index hs ((S.mono h₂).value hc) hi) hs
  | hash pairs => exact hhash pairs rfl
  | rangeFor x start stop body => exact rangeFor hrec x start stop body hE hs
  | collectionFor x collection body => exact collectionFor hrec x collection body hE hs
  | new className arguments => exact makeInstance hrec library className arguments hE hs
  | methodCall object method arguments =>
    refine callMethod hrec object method arguments (fun _ _ hs => get? hs hE object) (fun _ _ I J hs hI => ?_) hs
    exact S.frame_eq_iff hs (root hs hE) hI
  | increment x => exact hstep x true rfl
  | decrement x => exact hstep x false rfl

end Follows

/-! ## Whole evaluations -/

/-- `x++` and `x--` keep the stores in correspondence. -/
def Steps (S : Simulation) : Prop :=
  ∀ (w : S.World) (x : String) (up : Bool) {E F : FrameId}, (S.matching w).frame E F →
    Follows w values (Eval.step x up E) (Eval.step x up F)

/-- It is enough that the stores correspond after the change of the integer. -/
theorem steps_of_write
    (h : ∀ {w s t i j n} (m : Int64), S.stores w s t → (S.matching w).value (.ref i) (.ref j) →
      s.datum (.ref i) = .object (.integer n) → t.datum (.ref j) = .object (.integer n) →
      Later w (s.write i (.integer m)) (t.write j (.integer m))) : S.Steps := by
  intro w x up E F hE
  refine Follows.read fun s t hs => ?_
  rcases rel_cases (get? hs hE x) with ⟨h₁, h₂⟩ | ⟨u, v, h₁, h₂, huv⟩
  · rw [h₁, h₂]
    exact Follows.fail _ hs
  rw [h₁, h₂]
  dsimp only
  rw [Eval.datum_bind, Eval.datum_bind]
  have hd := S.datum hs huv
  generalize hu : s.datum u = d at hd
  generalize hv : t.datum v = e at hd
  cases hd with
  | null | boolean => exact Follows.fail _ hs
  | object ho =>
    cases ho with
    | integer n =>
      cases u with
      | null | boolean => cases hu
      | ref i =>
        cases v with
        | null | boolean => cases hv
        | ref j =>
          let m : Int64 := if up then n + 1 else n - 1
          obtain ⟨w₁, hw₁, hs₁⟩ := h m hs huv hu hv
          have hM := S.mono hw₁
          show Agree w values (.ok (.ref i) (((s.write i (.integer m)).update? E x (.ref i)).getD _))
            (.ok (.ref j) (((t.write j (.integer m)).update? F x (.ref j)).getD _))
          rcases rel_cases (update? hs₁ (hM.frame hE) x (hM.value huv)) with ⟨h₁, h₂⟩ | ⟨s₂, t₂, h₁, h₂, w₂, hw₂, hs₂⟩
          · rw [h₁, h₂]
            exact ⟨w₁, hw₁, hs₁, hM.value huv⟩
          · rw [h₁, h₂]
            exact ⟨w₂, S.trans hw₁ hw₂, hs₂, (S.mono hw₂).value (hM.value huv)⟩
    | _ => exact Follows.fail _ hs

/-- **Evaluation under a simulation.** Evaluations of one expression in corresponding frames follow each other. -/
theorem expr (hsteps : S.Steps) (hquiet : ∀ {w w'}, S.Le w w' → S.Quiet w w') (library : Library) (n : Nat) :
    S.Recs (Eval.expr library n) (Eval.expr library n) := by
  induction n with
  | zero => exact fun w e E F _ => Follows.throw .tooDeep
  | succ n ih =>
    exact fun w e E F hE s t hs => Follows.node library ih e hE hs (fun x up _ => hsteps w x up hE hs)
      fun pairs _ => Follows.hashPairs ih hquiet pairs hE .nil hs

end Simulation

end Pron
