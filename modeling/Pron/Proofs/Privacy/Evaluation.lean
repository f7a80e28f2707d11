import Pron.Proofs.Privacy.Builtin
import Pron.Proofs.Privacy.Copy

/-!
# Evaluation in two runs

When the evaluators of the expressions inside are twins, so are those of whole expressions, statements, blocks, calls,
loops and classes (`Secret.Twin.node`). The private method is never called: it is found by calls of methods only, and
these stand outside, or do not mention it. By induction on the depth, evaluations of alike expressions are twins
(`Secret.Twin.expr`).
-/

namespace Pron

namespace Secret

variable {S : Secret} {w : World} {s t : Store} {side : Side} {E : FrameId} {x : String} {u v : Value} {us : List Value}

/-- Evaluators that are twins for alike expressions, if these may be evaluated where they are. -/
def Recs (S : Secret) (rec rec' : Expr → FrameId → Eval Value) : Prop :=
  ∀ {w : World} {side : Side} {E : FrameId} {e e' : Expr}, S.AlikeExpr e e' → S.Permits side e.mentions →
    w.frame side E → S.Twin w World.Value (rec e E) (rec' e' E)

/-- Frames have the same parents in both runs. -/
theorem Stores.root_eq (hs : S.Stores w s t) : t.root E = s.root E := by
  unfold Store.root Store.chain
  rw [Store.chainUpTo_congr hs.frames]

/-- The receiver of a frame has the same fields in both runs. -/
theorem Stores.rootValue?_eq (hs : S.Stores w s t) : t.rootValue? E x = s.rootValue? E x := by
  unfold Store.rootValue? Store.localValue?
  rw [hs.root_eq, hs.frames]

namespace Twin

variable {rec rec' : Expr → FrameId → Eval Value} (hrec : S.Recs rec rec')

/-! ## Names -/

/-- A value within reach can be bound, inside of the class to permitted names only. -/
theorem bindValue (hE : w.frame side E) (hv : w.Value v) (hx : side = .inside → S.Allows (.name x)) :
    S.Twin w done (Eval.bind E x v) (Eval.bind E x v) := bindName hE (.of_value hv fun hside => (hx hside).2)

/-- A permitted name has a value within reach; outside of the class every name is permitted. -/
theorem readName (hE : w.frame side E) (hx : side = .inside → S.Allows (.name x)) :
    S.Twin w World.Value (Eval.readName x E) (Eval.readName x E) := by
  refine read fun s t hs => ?_
  rw [Store.get?_congr hs.frames]
  cases h : s.get? E x with
  | none =>
    dsimp only
    cases Builtin.ofName? x with
    | none => exact fail _ hs
    | some b => exact alloc (.scalar rfl rfl) hs
  | some v => exact pure ((hs.get? hE h).value hx) hs

/-- A permitted field of the receiver has a value within reach. -/
theorem readThis (hE : w.frame side E) (hx : side = .inside → S.Allows (.name x)) :
    S.Twin w World.Value (Eval.readThis x E) (Eval.readThis x E) := by
  refine read fun s t hs => ?_
  rw [hs.rootValue?_eq]
  cases h : s.rootValue? E x with
  | none => exact fail _ hs
  | some v => exact pure ((hs.rootValue? hE h).value hx) hs

/-- Integers are the same in both runs, so they can be stepped in both. -/
theorem step (hE : w.frame side E) (hx : side = .inside → S.Allows (.name x)) (up : Bool) :
    S.Twin w World.Value (Eval.step x up E) (Eval.step x up E) := by
  refine read fun s t hs => ?_
  rw [Store.get?_congr hs.frames]
  cases h : s.get? E x with
  | none => exact fail _ hs
  | some v =>
    have hv := (hs.get? hE h).value hx
    dsimp only
    rw [Eval.datum_bind, Eval.datum_bind]
    have hd := hs.datum hv
    generalize hsv : s.datum v = d at hd
    generalize t.datum v = d' at hd
    cases hd with
    | null | boolean => exact fail _ hs
    | @object o _ ho =>
      cases ho with
      | data =>
        cases o with
        | integer n =>
          cases v with
          | null | boolean => cases hsv
          | ref i =>
            let m : Int64 := if up then n + 1 else n - 1
            have hm : S.AlikeObject w (.integer m) (.integer m) := .scalar rfl rfl
            have hwrite := hs.write hsv rfl hm
            show S.Agree w _ (.ok (Value.ref i) (((s.write i (.integer m)).update? E x (.ref i)).getD _))
              (.ok (Value.ref i) (((t.write i (.integer m)).update? E x (.ref i)).getD _))
            unfold Store.update?
            rw [Store.binder?_congr hwrite.frames]
            cases hF : (s.write i (.integer m)).binder? E x with
            | none => exact .ok (.refl w) hwrite hv
            | some F =>
              exact .ok (.refl w) (hwrite.set (hwrite.binder? hE hF) (.of_value hv fun hside => (hx hside).2)) hv
        | _ => exact fail _ hs
      | _ => exact fail _ hs

include hrec in
/-- The left side is alike on both sides, and shown in the error if nothing can be assigned to it. -/
theorem assign {target target' value value' : Expr} (htarget : S.AlikeExpr target target')
    (hnested : S.nested ∨ target = target') (hvalue : S.AlikeExpr value value') (hE : w.frame side E)
    (hm : S.Permits side (target.mentions ++ value.mentions)) :
    S.Twin w World.Value (Eval.assign rec target value E) (Eval.assign rec' target' value' E) := by
  obtain ⟨hmt, hmv⟩ := permits_append.1 hm
  have hfail := AlikeError.target htarget hnested
  cases htarget with
  | name x =>
    have hx := (permits_cons.1 hmt).1
    refine (hrec hvalue hmv hE).bind fun w₁ v h₁ hv => read fun s t hs => ?_
    unfold Store.update?
    rw [Store.binder?_congr hs.frames]
    cases hF : s.binder? E x with
    | none => exact fail _ hs
    | some F =>
      exact .ok (.refl w₁) (hs.set (hs.binder? (h₁.frame hE) hF) (.of_value hv fun hside => (hx hside).2)) hv
  | thisName x =>
    have hx := (permits_cons.1 hmt).1
    refine (hrec hvalue hmv hE).bind fun w₁ v h₁ hv => read fun s t hs => ?_
    unfold Store.updateRoot?
    rw [hs.rootValue?_eq, hs.root_eq]
    split
    · exact .ok (.refl w₁) (hs.set (hs.root (h₁.frame hE)) (.of_value hv fun hside => (hx hside).2)) hv
    · exact fail _ hs
  | _ => exact failAlike hfail

/-! ## Statements -/

/-- Alike functions that are made in the same frame are alike. -/
theorem declare {d d' : FunctionDecl} (hd : S.AlikeDecl d d') (hE : w.frame side E) (hm : S.Permits side d.mentions) :
    S.Twin w World.Value (Eval.declare d E) (Eval.declare d' E) := by
  cases hd with
  | mk x isPublic hf => exact alloc (.function isPublic hf hE (permits_cons.1 hm).2)

include hrec in
/-- Alike values of fields are evaluated in the frame of the class. -/
theorem fields {fs fs' : List FieldDecl} (hfs : List.Forall₂ S.AlikeField fs fs') (hE : w.frame side E)
    (hm : ∀ f ∈ fs, (side = .inside → f.name ≠ Eval.initName) ∧ S.Permits side f.value.mentions) :
    S.Twin w done (fs.forM fun field => do Eval.bind E field.name (← rec field.value E))
      (fs'.forM fun field => do Eval.bind E field.name (← rec' field.value E)) := by
  refine forM hfs fun w₁ f f' h₁ hf hff => ?_
  obtain ⟨hname, hvalue⟩ := hm f hf
  cases hff with
  | mk x he =>
    exact (hrec he hvalue (h₁.frame hE)).bind fun w₂ v h₂ hv => bindName (h₂.frame (h₁.frame hE)) (.of_value hv hname)

/-- The methods of a secretive class. -/
theorem members {ms ms' : List FunctionDecl} (hms : List.Forall₂ S.AlikeMember ms ms') (hE : w.frame .inside E) :
    S.Twin w done (ms.forM fun method => do Eval.bind E method.name (← Eval.declare method E))
      (ms'.forM fun method => do Eval.bind E method.name (← Eval.declare method E)) := by
  refine forM hms fun w₁ m m' h₁ _ hmm => ?_
  have hE₁ := h₁.frame hE
  cases hmm with
  | hidden f f' => exact (allocHidden f f' E).bind fun w₂ v h₂ hv => bindName (h₂.frame hE₁) (.inr ⟨rfl, hv⟩)
  | other hd hm =>
    cases hd with
    | mk x isPublic hf =>
      refine (declare (.mk x isPublic hf) hE₁ hm).bind fun w₂ v h₂ hv => ?_
      exact bindValue (h₂.frame hE₁) hv (permits_cons.1 hm).1

/-- The methods of another class. -/
theorem methods {ms ms' : List FunctionDecl} (hms : List.Forall₂ S.AlikeDecl ms ms') (hE : w.frame .outside E) :
    S.Twin w done (ms.forM fun method => do Eval.bind E method.name (← Eval.declare method E))
      (ms'.forM fun method => do Eval.bind E method.name (← Eval.declare method E)) := by
  refine forM hms fun w₁ m m' h₁ _ hmm => ?_
  have hE₁ := h₁.frame hE
  cases hmm with
  | mk x isPublic hf =>
    exact (declare (.mk x isPublic hf) hE₁ trivial).bind fun w₂ v h₂ hv => bindName (h₂.frame hE₁) hv

/-- The class is bound where its statement stands. -/
theorem bindClass {side' : Side} {C : FrameId} (hC : w.frame side' C) (hE : w.frame side E)
    (hx : side = .inside → S.Allows (.name x)) :
    S.Twin w done (do Eval.bind E x (← Eval.alloc (.inst x C))) (do Eval.bind E x (← Eval.alloc (.inst x C))) :=
  (alloc (.inst x hC)).bind fun _ _ h₁ hv => bindValue (h₁.frame hE) hv hx

include hrec in
/-- A class with a secret has its frame inside, any other class outside. -/
theorem defineClass {d d' : ClassDecl} (hd : S.AlikeClass d d') (hE : w.frame side E)
    (hm : S.Permits side d.mentions) : S.Twin w done (Eval.defineClass rec d E) (Eval.defineClass rec' d' E) := by
  cases hd with
  | secretive x hfs hfields hms hinits hinit =>
    have hx := (permits_cons.1 hm).1
    refine (newRoot .inside).bind fun w₁ C h₁ hC => ?_
    refine (fields hrec hfs hC fun f hf => ⟨fun _ => (hfields f hf).1, (hfields f hf).2⟩).bind fun w₂ _ h₂ _ => ?_
    refine (members hms (h₂.frame hC)).bind fun w₃ _ h₃ _ => ?_
    have hC₃ := h₃.frame (h₂.frame hC)
    have hE₃ := h₃.frame (h₂.frame (h₁.frame hE))
    dsimp only
    cases hinits with
    | none => exact bindClass hC₃ hE₃ hx
    | @some c c' hc =>
      obtain ⟨hmentions, harguments⟩ := hinit c rfl
      have hfits (role : Role) (hrole : role = .visible ∨ role = .init) : S.Fits w₃ role (.init c C) (.init c' C) := by
        rcases hrole with rfl | rfl
        · exact .visible (.init C hc)
        · exact .init C C c' hmentions harguments
      refine (allocWith hfits).bind fun w₄ v h₄ hv => ?_
      have hbinding : S.Binding w₄ .inside (Eval.initName, v) :=
        .inl ⟨(hv .visible (.inl rfl)).value, fun _ => hv .init (.inr rfl)⟩
      exact (bindName (h₄.frame hC₃) hbinding).bind fun w₅ _ h₅ _ =>
        bindClass (h₅.frame (h₄.frame hC₃)) (h₅.frame (h₄.frame hE₃)) hx
  | other x hfs hms hinits =>
    have hx := (permits_cons.1 hm).1
    -- the frame of the class is outside, wherever its statement stands
    refine (newRoot .outside).bind fun w₁ C h₁ hC => ?_
    refine (fields hrec hfs hC fun f hf => ⟨nofun, trivial⟩).bind fun w₂ _ h₂ _ => ?_
    refine (methods hms (h₂.frame hC)).bind fun w₃ _ h₃ _ => ?_
    have hC₃ := h₃.frame (h₂.frame hC)
    have hE₃ := h₃.frame (h₂.frame (h₁.frame hE))
    dsimp only
    cases hinits with
    | none => exact bindClass hC₃ hE₃ hx
    | some hc =>
      refine (alloc (.init C hc)).bind fun w₄ v h₄ hv => ?_
      have hbinding : S.Binding w₄ .outside (Eval.initName, v) := hv
      refine (bindName (h₄.frame hC₃) hbinding).bind fun w₅ _ h₅ _ => ?_
      exact bindClass (h₅.frame (h₄.frame hC₃)) (h₅.frame (h₄.frame hE₃)) hx

include hrec

/-- Alike statements that may stand where they do are twins. -/
theorem stmt {st st' : Stmt} (hst : S.AlikeStmt st st') (hE : w.frame side E) (hm : S.Permits side st.mentions) :
    S.Twin w World.Value (Eval.stmt rec st E) (Eval.stmt rec' st' E) := by
  cases hst with
  | var x he =>
    obtain ⟨hx, hm⟩ := permits_cons.1 hm
    refine (hrec he hm hE).bind fun w₁ v h₁ hv => ?_
    exact (bindValue (h₁.frame hE) hv hx).bind fun _ _ _ _ => pure trivial
  | ret he => exact (hrec he hm hE).bind fun _ _ _ hv => throw (.returned hv)
  | expr he => exact hrec he hm hE
  | function hd =>
    cases hd with
    | mk x isPublic hf =>
      refine (declare (.mk x isPublic hf) hE hm).bind fun w₁ v h₁ hv => ?_
      exact (bindValue (h₁.frame hE) hv (permits_cons.1 hm).1).bind fun _ _ _ _ => pure trivial
  | classDecl hc => exact (defineClass hrec hc hE hm).bind fun _ _ _ _ => pure trivial

/-- Statement after statement, with the value of the last one. -/
theorem blockFrom {body body' : List Stmt} (hbody : S.AlikeBlock body body') (hE : w.frame side E)
    (hm : S.Permits side (blockMentions body)) (hv : w.Value v) :
    S.Twin w World.Value (Eval.blockFrom rec v body E) (Eval.blockFrom rec' v body' E) := by
  induction hbody generalizing w v with
  | nil => exact pure hv
  | cons hst _ ih =>
    obtain ⟨hm, hrest⟩ := permits_append.1 hm
    exact (stmt hrec hst hE hm).bind fun w₁ u h₁ hu => ih (h₁.frame hE) hrest hu

/-- Alike blocks are twins. -/
theorem block {body body' : List Stmt} (hbody : S.AlikeBlock body body') (hE : w.frame side E)
    (hm : S.Permits side (blockMentions body)) :
    S.Twin w World.Value (Eval.block rec body E) (Eval.block rec' body' E) := blockFrom hrec hbody hE hm trivial

/-- A `return` in the one run is a `return` in the other. -/
theorem program {p p' : Program} (hp : S.AlikeBlock p p') (hE : w.frame side E)
    (hm : S.Permits side (blockMentions p)) :
    S.Twin w World.Value (Eval.program rec p E) (Eval.program rec' p' E) := catchReturn (block hrec hp hE hm)

/-! ## Expressions -/

/-- Alike arguments one after the other. -/
theorem exprs {es es' : List Expr} (hes : List.Forall₂ S.AlikeExpr es es') (hE : w.frame side E)
    (hm : S.Permits side (exprMentions es)) :
    S.Twin w (fun w' vs => ∀ v ∈ vs, w'.Value v) (Eval.exprs rec es E) (Eval.exprs rec' es' E) := by
  induction hes generalizing w with
  | nil => exact pure nofun
  | cons he _ ih =>
    obtain ⟨hm, hrest⟩ := permits_append.1 hm
    refine (hrec he hm hE).bind fun w₁ v h₁ hv => ?_
    exact (ih (h₁.frame hE) hrest).bind fun w₂ vs h₂ hvs => pure (List.forall_mem_cons.2 ⟨h₂.value hv, hvs⟩)

/-- A condition holds in both runs or in neither. -/
theorem conditional {bs bs' : List Branch} {o o' : Option (List Stmt)} (hbs : List.Forall₂ S.AlikeBranch bs bs')
    (ho : Option.Rel S.AlikeBlock o o') (hE : w.frame side E)
    (hm : S.Permits side (branchMentions bs ++ otherwiseMentions o)) :
    S.Twin w World.Value (Eval.conditional rec bs o E) (Eval.conditional rec' bs' o' E) := by
  obtain ⟨hmb, hmo⟩ := permits_append.1 hm
  induction hbs generalizing w with
  | nil =>
    cases ho with
    | none => exact pure trivial
    | some hbody => exact block hrec hbody hE hmo
  | cons hb _ ih =>
    cases hb with
    | mk hc hbody =>
      obtain ⟨hfirst, hrest⟩ := permits_append.1 hmb
      obtain ⟨hmc, hmbody⟩ := permits_append.1 hfirst
      refine (hrec hc hmc hE).bind fun w₁ v h₁ hv => datum hv fun d d' hd => ?_
      rw [hd.isTruthy_eq]
      split
      · exact block hrec hbody (h₁.frame hE) hmbody
      · exact ih (h₁.frame hE) (permits_append.2 ⟨hrest, hmo⟩) hrest

/-- Keys are filed alike in both runs. -/
theorem hashPairs {ps ps' : List KeyValue} (hps : List.Forall₂ S.AlikePair ps ps') {entries : List HashEntry}
    (hentries : ∀ e ∈ entries, w.Value e.key ∧ w.Value e.value) (hE : w.frame side E)
    (hm : S.Permits side (pairMentions ps)) :
    S.Twin w World.Value (Eval.hashPairs rec ps entries E) (Eval.hashPairs rec' ps' entries E) := by
  induction hps generalizing w entries with
  | nil => exact alloc (.hash hentries)
  | cons hp _ ih =>
    cases hp with
    | mk hk hv =>
      obtain ⟨hfirst, hrest⟩ := permits_append.1 hm
      obtain ⟨hmk, hmv⟩ := permits_append.1 hfirst
      refine (hrec hk hmk hE).bind fun w₁ k h₁ hkey => datum hkey fun d d' hd => ?_
      rw [hd.keyContent?_eq, hd.type_eq]
      split
      · exact fail _
      · refine (hrec hv hmv (h₁.frame hE)).bind fun w₂ v h₂ hvalue => ih ?_ (h₂.frame (h₁.frame hE)) hrest
        have hmono : ∀ e ∈ entries, w₂.Value e.key ∧ w₂.Value e.value := fun e he =>
          ⟨h₂.value (h₁.value (hentries e he).1), h₂.value (h₁.value (hentries e he).2)⟩
        exact values_insert hmono _ (h₂.value hkey) hvalue

/-- Functions with alike bodies take the same number of arguments and run in frames on the same side. -/
theorem callClosure {f f' : FunctionLit} {isPublic : Bool} (hf : S.AlikeFunction f f') (hE : w.frame side E)
    (hm : S.Permits side f.mentions) (hus : ∀ u ∈ us, w.Value u) :
    S.Twin w World.Value (Eval.callClosure rec ⟨f, E, isPublic⟩ us) (Eval.callClosure rec' ⟨f', E, isPublic⟩ us) := by
  cases hf with
  | mk parameters hbody =>
    obtain ⟨hmp, hmbody⟩ := permits_append.1 hm
    unfold Eval.callClosure
    dsimp only
    split
    · exact fail_bind _
    · refine (newChild hE).bind fun w₁ F h₁ hF => ?_
      have hsame : List.Forall₂ Eq (parameters.zip us) (parameters.zip us) := List.forall₂_same.2 fun _ _ => rfl
      refine (forM hsame fun w₂ p q h₂ hp hpq => ?_).bind fun w₂ _ h₂ _ => ?_
      · subst hpq
        obtain ⟨x, u⟩ := p
        obtain ⟨hx, hu⟩ := List.of_mem_zip hp
        refine bindValue (h₂.frame hF) (h₂.value (h₁.value (hus u hu))) fun hside => ?_
        subst hside
        exact hmp _ (List.mem_map_of_mem hx)
      · exact catchReturn (block hrec hbody (h₂.frame hF) hmbody)

/-- What is called is a function in both runs or in neither. -/
theorem apply (hu : w.Value u) (hus : ∀ u ∈ us, w.Value u) :
    S.Twin w World.Value (Eval.apply rec u us) (Eval.apply rec' u us) := by
  refine datum hu fun d d' hd => ?_
  cases hd with
  | null | boolean => exact fail _
  | @object o _ ho =>
    cases ho with
    | function isPublic hf hE hm => exact callClosure hrec hf hE hm hus
    | data hframe =>
      cases o with
      | builtin b => exact call b hus
      | function | inst | init => cases hframe
      | _ => exact fail _
    | _ => exact fail _

/-! ## Loops -/

section Loops

variable {body body' : List Stmt} (hbody : S.AlikeBlock body body') (hx : side = .inside → S.Allows (.name x))
  (hm : S.Permits side (blockMentions body))

include hbody hx hm

theorem round (hE : w.frame side E) (hv : w.Value v) :
    S.Twin w World.Value (Eval.round rec x body E v) (Eval.round rec' x body' E v) :=
  (bindValue hE hv hx).bind fun _ _ h₁ _ => block hrec hbody (h₁.frame hE) hm

/-- The rounds of a loop over numbers, by induction on how many are left. -/
theorem countRounds (delta : Int64) (n : Nat) (k : Int64) (hE : w.frame side E) (hv : w.Value v) :
    S.Twin w World.Value (Eval.countRounds rec x body E delta n k v) (Eval.countRounds rec' x body' E delta n k v) := by
  induction n generalizing w k v with
  | zero => exact pure hv
  | succ n ih =>
    refine (alloc (.scalar rfl rfl)).bind fun w₁ i h₁ hi => ?_
    exact (round hrec hbody hx hm (h₁.frame hE) hi).bind fun w₂ u h₂ hu => ih (k + delta) (h₂.frame (h₁.frame hE)) hu

/-- The rounds of a loop over values, by induction on the list. -/
theorem valueRounds (hE : w.frame side E) (hus : ∀ u ∈ us, w.Value u) (hv : w.Value v) :
    S.Twin w World.Value (Eval.valueRounds rec x body E us v) (Eval.valueRounds rec' x body' E us v) := by
  induction us generalizing w v with
  | nil => exact pure hv
  | cons u us ih =>
    obtain ⟨hu, hrest⟩ := List.forall_mem_cons.1 hus
    exact (round hrec hbody hx hm hE hu).bind fun w₁ v h₁ hv => ih (h₁.frame hE) (h₁.values hrest) hv

omit hrec hbody hm in
/-- The frame of a loop is on the side of the one around it. -/
theorem loopFrame (hE : w.frame side E) :
    S.Twin w (fun w' L => w'.frame side L) (Eval.loopFrame x E) (Eval.loopFrame x E) := by
  refine (newChild hE).bind fun w₁ L h₁ hL => ?_
  have hnull : w₁.Value .null := trivial
  exact (bindValue hL hnull hx).bind fun w₂ _ h₂ _ => pure (h₂.frame hL)

omit hbody hx hm in
/-- A bound is the same number in both runs. -/
theorem loopBound (bound : LoopBound) {e e' : Expr} (he : S.AlikeExpr e e') (hE : w.frame side E)
    (hm : S.Permits side e.mentions) :
    S.Twin w (fun _ _ => True) (Eval.loopBound rec bound e E) (Eval.loopBound rec' bound e' E) := by
  refine (hrec he hm hE).bind fun w₁ v h₁ hv => datum hv fun d d' hd => ?_
  cases hd with
  | null | boolean => exact fail _
  | @object o _ ho =>
    cases ho with
    | data =>
      cases o with
      | integer => exact pure trivial
      | _ => exact fail _
    | _ => exact fail _

/-- Both runs go through the same numbers. -/
theorem rangeFor {a a' b b' : Expr} (ha : S.AlikeExpr a a') (hb : S.AlikeExpr b b') (hE : w.frame side E)
    (hma : S.Permits side a.mentions) (hmb : S.Permits side b.mentions) :
    S.Twin w World.Value (Eval.rangeFor rec x a b body E) (Eval.rangeFor rec' x a' b' body' E) := by
  refine (loopBound hrec .start ha hE hma).bind fun w₁ i h₁ _ => ?_
  refine (loopBound hrec .stop hb (h₁.frame hE) hmb).bind fun w₂ j h₂ _ => ?_
  refine (loopFrame hx (h₂.frame (h₁.frame hE))).bind fun w₃ L h₃ hL => ?_
  exact countRounds hrec hbody hx hm _ _ i hL trivial

/-- Both runs go through the same elements. -/
theorem collectionFor {collection : String} (hcollection : side = .inside → S.Allows (.name collection))
    (hE : w.frame side E) :
    S.Twin w World.Value (Eval.collectionFor rec x collection body E)
      (Eval.collectionFor rec' x collection body' E) := by
  refine read fun s t hs => ?_
  rw [Store.get?_congr hs.frames]
  cases h : s.get? E collection with
  | none => exact fail _ hs
  | some v =>
    have hv := (hs.get? hE h).value hcollection
    refine datum hv (fun d d' hd => ?_) hs
    cases hd with
    | null | boolean => exact fail _
    | @object o _ ho =>
      cases ho with
      | data hframe hparts =>
        cases o with
        | array elements =>
          exact (loopFrame hx hE).bind fun w₁ L h₁ hL => valueRounds hrec hbody hx hm hL (h₁.values hparts) trivial
        | function | inst | init => cases hframe
        | _ => exact fail _
      | _ => exact fail _

end Loops

/-! ## Classes and objects -/

section Classes

variable {library library' : Library} (hlibrary : S.AlikeLibrary library library')

omit hrec in
/-- A name that is bound, and twins where it is not. -/
theorem getOr {a b : Eval Value} (hE : w.frame side E) (hx : side = .inside → S.Allows (.name x))
    (h : S.Twin w World.Value a b) :
    S.Twin w World.Value
      (do match (← get).get? E x with
        | some v => return v
        | none => a)
      (do match (← get).get? E x with
        | some v => return v
        | none => b) := by
  refine read fun s t hs => ?_
  rw [Store.get?_congr hs.frames]
  cases hget : s.get? E x with
  | none => exact h hs
  | some v => exact pure ((hs.get? hE hget).value hx) hs

include hlibrary

/-- Both runs ask for the same unit, and alike units run alike. -/
theorem classOfUnit {className : String} (hE : w.frame side E) (hx : side = .inside → S.Allows (.name className))
    (hunit : side = .inside → S.units className) :
    S.Twin w World.Value (Eval.classOfUnit library rec className E) (Eval.classOfUnit library' rec' className E) := by
  have hrequest : S.Twin w done (modify (·.request className) : Eval Unit) (modify (·.request className)) :=
    change fun _ _ hs => hs.request className
  refine hrequest.bind fun w₁ _ h₁ _ => ?_
  have halike := hlibrary className
  generalize library className = a at halike
  generalize library' className = b at halike
  cases halike with
  | none => exact fail _
  | @some source source' hprogram hpermits =>
    have hm : S.Permits side (blockMentions (parseSource source).program) := by
      cases side with
      | inside => exact hpermits (hunit rfl)
      | outside => trivial
    have hE₁ := h₁.frame hE
    exact (program hrec hprogram hE₁ hm).bind fun w₂ _ h₂ _ => getOr (h₂.frame hE₁) hx (fail _)

/-- A class is in scope in both runs, or its unit is asked for in both. -/
theorem findClass {className : String} (hE : w.frame side E) (hx : side = .inside → S.Allows (.name className))
    (hunit : side = .inside → S.units className) :
    S.Twin w World.Value (Eval.findClass library rec className E) (Eval.findClass library' rec' className E) :=
  getOr hE hx (classOfUnit hrec hlibrary hE hx hunit)

omit hlibrary

/-- A parameter of a constructor and its argument, in the two runs. Arguments for fields are evaluated on `side'`. -/
structure AlikeArgument (S : Secret) (side side' : Side) (p q : ConstructorParam × Expr) : Prop where
  param : p.1 = q.1
  argument : S.AlikeExpr p.2 q.2
  outside : S.Permits side p.2.mentions
  inside : p.1.isField → S.Permits side' p.2.mentions
  name : side' = .inside → S.Allows (.name p.1.name)

/-- Arguments for fields are evaluated inside, where the secret must not be named. -/
theorem initArguments {side' : Side} (className : String) {I F : FrameId} {as as' : List (ConstructorParam × Expr)}
    (has : List.Forall₂ (AlikeArgument S side side') as as') (hI : w.frame side' I) (hF : w.frame side' F)
    (hE : w.frame side E) :
    S.Twin w done (Eval.initArguments rec className I F as E) (Eval.initArguments rec' className I F as' E) := by
  induction has generalizing w with
  | nil => exact pure trivial
  | @cons p q as as' hpq _ ih =>
    obtain ⟨p, e⟩ := p
    obtain ⟨p', e'⟩ := q
    obtain ⟨hp, he, houtside, hinside, hname⟩ := hpq
    dsimp only at hp he houtside hinside hname
    subst hp
    unfold Eval.initArguments
    split
    next hfield =>
      refine (hrec he (hinside hfield) hI).bind fun w₁ v h₁ hv => read fun s t hs => ?_
      unfold Store.update?
      rw [Store.binder?_congr hs.frames]
      cases hG : s.binder? I p.name with
      | none => exact fail_bind _ hs
      | some G =>
        have hs' := hs.set (hs.binder? (h₁.frame hI) hG) (.of_value hv fun hside => (hname hside).2)
        exact ih (h₁.frame hI) (h₁.frame hF) (h₁.frame hE) hs'
    next =>
      refine (hrec he houtside hE).bind fun w₁ v h₁ hv => ?_
      refine (bindValue (h₁.frame hF) hv hname).bind fun w₂ _ h₂ _ => ?_
      exact ih (h₂.frame (h₁.frame hI)) (h₂.frame (h₁.frame hF)) (h₂.frame (h₁.frame hE))

omit hrec in
/-- Parameters with alike arguments. -/
theorem alikeArguments {ps : List ConstructorParam} {es es' : List Expr} {side' : Side}
    (hes : List.Forall₂ S.AlikeExpr es es') (hm : S.Permits side (exprMentions es))
    (hfields : ∀ (i : Nat) (p : ConstructorParam) (e : Expr), ps[i]? = some p → es[i]? = some e → p.isField →
      S.Permits side' e.mentions)
    (hnames : ∀ p ∈ ps, side' = .inside → S.Allows (.name p.name)) :
    List.Forall₂ (AlikeArgument S side side') (ps.zip es) (ps.zip es') := by
  induction hes generalizing ps with
  | nil => cases ps <;> exact .nil
  | cons he _ ih =>
    cases ps with
    | nil => exact .nil
    | cons p ps =>
      obtain ⟨hm, hrest⟩ := permits_append.1 hm
      obtain ⟨hname, hnames⟩ := List.forall_mem_cons.1 hnames
      exact .cons ⟨rfl, he, hm, hfields 0 _ _ rfl rfl, hname⟩ (ih hrest (fun i => hfields (i + 1)) hnames)

/-- Constructors of alike classes run alike in the frame of the new instance. -/
theorem construct {side' : Side} (className : String) {c c' : Constructor} (hc : S.AlikeInit c c') {I : FrameId}
    {es es' : List Expr} (hes : List.Forall₂ S.AlikeExpr es es') (hm : S.Permits side (exprMentions es))
    (hinside : side' = .inside →
      S.Permits .inside c.mentions ∧ ∀ i p, c.parameters[i]? = some p → p.isField → S.arguments i)
    (hfields : ∀ i e, es[i]? = some e → S.arguments i → S.Permits .inside e.mentions) (hI : w.frame side' I)
    (hE : w.frame side E) :
    S.Twin w done (Eval.construct rec className c I es E) (Eval.construct rec' className c' I es' E) := by
  cases hc with
  | @mk parameters body body' hbody =>
    have hpermits : S.Permits side' (parameters.map (fun p => .name p.name) ++ blockMentions body) := by
      cases side' with
      | inside => exact (hinside rfl).1
      | outside => trivial
    obtain ⟨hmp, hmbody⟩ := permits_append.1 hpermits
    have harguments (w : World) :
        List.Forall₂ (AlikeArgument S side side') (parameters.zip es) (parameters.zip es') := by
      refine alikeArguments hes hm (fun i p e hp he hfield => ?_) fun p hp hside => ?_
      · cases side' with
        | inside => exact hfields i e he ((hinside rfl).2 i p hp hfield)
        | outside => trivial
      · subst hside
        exact hmp _ (List.mem_map_of_mem hp)
    unfold Eval.construct
    dsimp only
    rw [hes.length_eq]
    split
    · exact fail_bind _
    · refine (newChild hI).bind fun w₁ F h₁ hF => ?_
      refine (initArguments hrec className (harguments w₁) (h₁.frame hI) hF (h₁.frame hE)).bind fun w₂ _ h₂ _ => ?_
      exact (catchReturn (block hrec hbody (h₂.frame hF) hmbody)).bind fun _ _ _ _ => pure trivial

variable (hmethod : S.method ≠ Eval.initName)

include hmethod

/-- There is a constructor in both runs or in neither. -/
theorem initInstance {side' : Side} (className : String) {I : FrameId} {es es' : List Expr}
    (hes : List.Forall₂ S.AlikeExpr es es') (hm : S.Permits side (exprMentions es))
    (hfields : ∀ i e, es[i]? = some e → S.arguments i → S.Permits .inside e.mentions) (hI : w.frame side' I)
    (hE : w.frame side E) :
    S.Twin w done (Eval.initInstance rec className I es E) (Eval.initInstance rec' className I es' E) := by
  refine read fun s t hs => ?_
  rw [Store.get?_congr hs.frames]
  cases hget : s.get? I Eval.initName with
  | none =>
    dsimp only
    rw [hes.length_eq]
    split
    · exact fail _ hs
    · exact pure trivial hs
  | some v =>
    have hbinding := hs.get? hI hget
    have hv : w.Value v ∧ (side' = .inside → w.Refers .init v) := by
      cases side' with
      | inside =>
        rcases hbinding with ⟨hv, hinit⟩ | ⟨hname, _⟩
        · exact ⟨hv, fun _ => hinit rfl⟩
        · exact (hmethod hname.symm).elim
      | outside => exact ⟨hbinding, nofun⟩
    dsimp only
    rw [Eval.datum_bind, Eval.datum_bind]
    have hd := hs.datum hv.1
    generalize hsv : s.datum v = d at hd
    generalize t.datum v = d' at hd
    cases hd with
    | null | boolean => exact fail _ hs
    | @object o _ ho =>
      cases ho with
      | init F hc =>
        refine construct hrec className hc hes hm (fun hside => ?_) hfields hI hE hs
        obtain ⟨_, _, _, _, ho, _, hpermits, harguments⟩ := hs.init (hv.2 hside)
        rw [hsv] at ho
        cases ho
        exact ⟨hpermits, harguments⟩
      | data hframe =>
        cases o with
        | function | inst | init => cases hframe
        | _ => exact fail _ hs
      | _ => exact fail _ hs

/-- The new instance is copied from the frame of the class, on the same side. -/
theorem instantiate {side' : Side} (className name : String) {T : FrameId} {es es' : List Expr}
    (hes : List.Forall₂ S.AlikeExpr es es') (hm : S.Permits side (exprMentions es))
    (hfields : ∀ i e, es[i]? = some e → S.arguments i → S.Permits .inside e.mentions) (hT : w.frame side' T)
    (hE : w.frame side E) :
    S.Twin w World.Value (Eval.instantiate rec className name T es E)
      (Eval.instantiate rec' className name T es' E) := by
  refine (instanceFrame hT).bind fun w₁ I h₁ hI => ?_
  refine (initInstance hrec hmethod className hes hm hfields hI (h₁.frame hE)).bind fun w₂ _ h₂ _ => ?_
  exact alloc (.inst name (h₂.frame hI))

include hlibrary in
/-- The class is found, and then its instance made, in both runs. -/
theorem makeInstance {className : String} {es es' : List Expr} (hes : List.Forall₂ S.AlikeExpr es es')
    (hm : S.Permits side (.name className :: .unit className :: exprMentions es))
    (hfields : ∀ i e, es[i]? = some e → S.arguments i → S.Permits .inside e.mentions) (hE : w.frame side E) :
    S.Twin w World.Value (Eval.makeInstance library rec className es E)
      (Eval.makeInstance library' rec' className es' E) := by
  obtain ⟨hx, hm⟩ := permits_cons.1 hm
  obtain ⟨hunit, hm⟩ := permits_cons.1 hm
  refine (findClass hrec hlibrary hE hx hunit).bind fun w₁ v h₁ hv => datum hv fun d d' hd => ?_
  cases hd with
  | null | boolean => exact fail _
  | @object o _ ho =>
    cases ho with
    | inst name hT => exact instantiate hrec hmethod className name hes hm hfields hT (h₁.frame hE)
    | data hframe =>
      cases o with
      | function | inst | init => cases hframe
      | _ => exact fail _
    | _ => exact fail _

end Classes

/-! ## Methods -/

/-- What is found of a method in both stores: alike functions, or nothing for the same reason. -/
def FoundAlike (S : Secret) (w : World) (s t : Store) (x y : EStateM.Result Stop Store (Closure × FrameId)) : Prop :=
  (∃ e, x = .error (.failed e) s ∧ y = .error (.failed e) t) ∨
    ∃ f f' F I isPublic sideF sideI, x = .ok (⟨f, F, isPublic⟩, I) s ∧ y = .ok (⟨f', F, isPublic⟩, I) t ∧
      S.AlikeFunction f f' ∧ w.frame sideF F ∧ S.Permits sideF f.mentions ∧ w.frame sideI I

omit hrec in
/-- The private method is not found from outside, and calls inside do not mention it. -/
theorem findMethod_inst {object method className : String} {I : FrameId} {sideI : Side} (hs : S.Stores w s t)
    (hE : w.frame side E) (hmethod : side = .inside → S.Allows (.name method)) (hget : s.get? E object = some v)
    (hv : s.datum v = .object (.inst className I)) (hv' : t.datum v = .object (.inst className I))
    (hI : w.frame sideI I) :
    FoundAlike S w s t (Eval.findMethod object method E s) (Eval.findMethod object method E t) := by
  have hget' : t.get? E object = some v := (Store.get?_congr hs.frames).trans hget
  cases hf : s.get? I method with
  | none =>
    have hf' : t.get? I method = none := (Store.get?_congr hs.frames).trans hf
    exact .inl ⟨_, Eval.findMethod_no_method hget hv hf, Eval.findMethod_no_method hget' hv' hf'⟩
  | some f =>
    have hf' : t.get? I method = some f := (Store.get?_congr hs.frames).trans hf
    have hbinding : w.Value f ∨ sideI = .inside ∧ method = S.method ∧ w.Refers .hidden f := by
      cases sideI with
      | inside => exact (hs.get? hI hf).imp And.left fun h => ⟨rfl, h⟩
      | outside => exact .inl (hs.get? hI hf)
    rcases hbinding with hvisible | ⟨rfl, hname, hhidden⟩
    · have hd := hs.datum hvisible
      by_cases hfunction : ∃ closure, s.datum f = .object (.function closure)
      · obtain ⟨⟨g, F, isPublic⟩, hfunction⟩ := hfunction
        rw [hfunction] at hd
        obtain ⟨g', sideF, hfunction', hg, hF, hm⟩ := hd.function
        rw [Eval.findMethod_of_function hget hv hf hfunction, Eval.findMethod_of_function hget' hv' hf' hfunction',
          hs.root_eq]
        split
        · exact .inl ⟨_, rfl, rfl⟩
        · exact .inr ⟨g, g', F, I, isPublic, sideF, sideI, rfl, rfl, hg, hF, hm, hI⟩
      · have hnone (closure : Closure) : s.datum f ≠ .object (.function closure) := fun h => hfunction ⟨closure, h⟩
        rw [Eval.findMethod_of_not_function hget hv hf hnone,
          Eval.findMethod_of_not_function hget' hv' hf' (hd.not_function hnone), hd.type_eq]
        exact .inl ⟨_, rfl, rfl⟩
    · obtain ⟨g, g', F, hg, hg'⟩ := hs.hidden hhidden
      have houtside : s.root E ≠ I := by
        rintro rfl
        exact (hmethod (hs.side_eq hI (hs.root hE))).1 hname
      have hrefused : (!false && decide (s.root E ≠ I)) = true := by simpa using houtside
      rw [Eval.findMethod_of_function hget hv hf hg, Eval.findMethod_of_function hget' hv' hf' hg', hs.root_eq,
        if_pos hrefused, if_pos hrefused]
      exact .inl ⟨_, rfl, rfl⟩

omit hrec in
/-- A call of a method finds alike functions in both stores, or fails in both. -/
theorem findMethod {object method : String} (hs : S.Stores w s t) (hE : w.frame side E)
    (hobject : side = .inside → S.Allows (.name object)) (hmethod : side = .inside → S.Allows (.name method)) :
    FoundAlike S w s t (Eval.findMethod object method E s) (Eval.findMethod object method E t) := by
  cases hget : s.get? E object with
  | none =>
    have hget' : t.get? E object = none := (Store.get?_congr hs.frames).trans hget
    exact .inl ⟨_, Eval.findMethod_none hget method, Eval.findMethod_none hget' method⟩
  | some v =>
    have hget' : t.get? E object = some v := (Store.get?_congr hs.frames).trans hget
    have hd := hs.datum ((hs.get? hE hget).value hobject)
    by_cases hv : ∃ className I, s.datum v = .object (.inst className I)
    · obtain ⟨className, I, hv⟩ := hv
      rw [hv] at hd
      obtain ⟨sideI, hv', hI⟩ := hd.inst
      exact findMethod_inst hs hE hmethod hget hv hv' hI
    · have hnone (className : String) (I : FrameId) : s.datum v ≠ .object (.inst className I) :=
        fun h => hv ⟨className, I, h⟩
      rw [Eval.findMethod_of_not_object hget hnone, Eval.findMethod_of_not_object hget' (hd.not_inst hnone), hd.type_eq]
      exact .inl ⟨_, rfl, rfl⟩

/-- Arguments of a method call are evaluated inside, where the secret must not be named. -/
theorem callMethod {object method : String} {es es' : List Expr} (hes : List.Forall₂ S.AlikeExpr es es')
    (hm : S.Permits side (.name object :: .name method :: exprMentions es))
    (hinside : S.Permits .inside (exprMentions es)) (hE : w.frame side E) :
    S.Twin w World.Value (Eval.callMethod rec object method es E) (Eval.callMethod rec' object method es' E) := by
  obtain ⟨hobject, hm⟩ := permits_cons.1 hm
  obtain ⟨hmethod, _⟩ := permits_cons.1 hm
  intro s t hs
  unfold Eval.callMethod
  rcases findMethod hs hE hobject hmethod with
    ⟨e, h, h'⟩ | ⟨f, f', F, I, isPublic, sideF, sideI, h, h', hf, hF, hmf, hI⟩
  · rw [Eval.bind_of_error h, Eval.bind_of_error h']
    exact .error (.refl w) hs (.failed (.same e))
  · rw [Eval.bind_of_ok h, Eval.bind_of_ok h']
    have harguments : S.Permits sideI (exprMentions es) := by
      cases sideI with
      | inside => exact hinside
      | outside => trivial
    exact (exprs hrec hes hI harguments).bind (fun w₁ us h₁ hus => callClosure hrec hf (h₁.frame hF) hmf hus) hs

/-! ## Whole expressions -/

/-- Operands that are within reach are the same in both runs. -/
theorem operate {op : BinaryOp} {l l' r r' : Expr} (hl : S.AlikeExpr l l') (hr : S.AlikeExpr r r')
    (hm : S.Permits side (l.mentions ++ r.mentions)) (hE : w.frame side E) :
    S.Twin w World.Value
      (do
        let u ← rec l E
        let v ← rec r E
        Eval.give (← Eval.ofExcept (Operator.binary (← get) op u v)))
      (do
        let u ← rec' l' E
        let v ← rec' r' E
        Eval.give (← Eval.ofExcept (Operator.binary (← get) op u v))) := by
  obtain ⟨hml, hmr⟩ := permits_append.1 hm
  refine (hrec hl hml hE).bind fun w₁ u h₁ hu => ?_
  refine (hrec hr hmr (h₁.frame hE)).bind fun w₂ v h₂ hv => read fun s t hs => ?_
  rw [hs.binary (h₂.value hu) hv]
  exact (ofExcept fun d hd => scalar_binary hd).bind (fun _ _ _ hd => give hd) hs

variable {library library' : Library} (hlibrary : S.AlikeLibrary library library') (hmethod : S.method ≠ Eval.initName)

include hlibrary hmethod

/-- Alike expressions that may stand where they do are twins. -/
theorem node {e e' : Expr} (he : S.AlikeExpr e e') (hm : S.Permits side e.mentions) (hE : w.frame side E) :
    S.Twin w World.Value (Eval.node library rec e E) (Eval.node library' rec' e' E) := by
  cases he with
  | null => exact pure trivial
  | name x => exact readName hE (permits_cons.1 hm).1
  | thisName x => exact readThis hE (permits_cons.1 hm).1
  | integer | real | text => exact alloc (.scalar rfl rfl)
  | boolean b => exact pure trivial
  | unary op he =>
    refine (hrec he hm hE).bind fun w₁ v h₁ hv => datum hv fun d d' hd => ?_
    rw [hd.unary]
    exact (ofExcept fun d hd => scalar_unary hd).bind fun _ _ _ hd => give hd
  | binary op hl hr hnested =>
    cases op with
    | assign => exact assign hrec hl (hnested rfl) hr hE hm
    | _ => exact operate hrec hl hr hm hE
  | conditional hbs ho => exact conditional hrec hbs ho hE hm
  | function hf => exact alloc (.function true hf hE hm)
  | call hf hes =>
    obtain ⟨hmf, hmes⟩ := permits_append.1 hm
    refine (hrec hf hmf hE).bind fun w₁ u h₁ hu => ?_
    exact (exprs hrec hes (h₁.frame hE) hmes).bind fun w₂ us h₂ hus => apply hrec (h₂.value hu) hus
  | array hes => exact (exprs hrec hes hE hm).bind fun _ _ _ hus => alloc (.data rfl hus)
  | index hc hi =>
    obtain ⟨hmc, hmi⟩ := permits_append.1 hm
    refine (hrec hc hmc hE).bind fun w₁ u h₁ hu => ?_
    refine (hrec hi hmi (h₁.frame hE)).bind fun w₂ v h₂ hv => read fun s t hs => ?_
    rw [hs.index (h₂.value hu) hv]
    exact ofExcept (fun r hr => hs.index_value (h₂.value hu) hr) hs
  | hash hps => exact hashPairs hrec hps nofun hE hm
  | rangeFor x ha hb hbody =>
    obtain ⟨hx, hm⟩ := permits_cons.1 hm
    obtain ⟨hma, hm⟩ := permits_append.1 hm
    obtain ⟨hmb, hm⟩ := permits_append.1 hm
    exact rangeFor hrec hbody hx hm ha hb hE hma hmb
  | collectionFor x collection hbody =>
    obtain ⟨hx, hm⟩ := permits_cons.1 hm
    obtain ⟨hcollection, hm⟩ := permits_cons.1 hm
    exact collectionFor hrec hbody hx hm hcollection hE
  | new className hes hfields => exact makeInstance hrec hlibrary hmethod hes hm hfields hE
  | methodCall object method hes hinside => exact callMethod hrec hes hm hinside hE
  | increment x => exact step hE (permits_cons.1 hm).1 true
  | decrement x => exact step hE (permits_cons.1 hm).1 false

omit hrec in
/-- Evaluations of alike expressions are twins. -/
theorem expr (n : Nat) : S.Recs (Eval.expr library n) (Eval.expr library' n) := by
  induction n with
  | zero => exact fun _ _ _ => throw .tooDeep
  | succ n ih => exact fun he hm hE => node ih hlibrary hmethod he hm hE

end Twin

end Secret

end Pron
