import Pron.Session

/-!
# Where a `return` ends

A `return` stops every evaluation around it up to the end of the function it belongs to. So an evaluation of a text in
which no `return` stands but in the bodies of functions, methods and constructors (`Expr.isReturnless`) never ends at a
`return`: calls, constructors and the units of classes take those of the bodies they run for results. The initial values
of fields are no such body, they are evaluated where the class is declared.
-/

namespace Pron

/-! ## Texts -/

mutual

/-- Whether no `return` stands in an expression, but in the bodies of functions. -/
def Expr.isReturnless : Expr → Bool
  | .null | .name _ | .thisName _ | .integer _ | .real _ | .text _ | .boolean _ | .increment _ | .decrement _ => true
  | .unary _ operand => operand.isReturnless
  | .binary _ left right => left.isReturnless && right.isReturnless
  | .conditional branches otherwise => returnlessBranches branches && returnlessOtherwise otherwise
  | .function _ => true
  | .call function arguments => function.isReturnless && returnlessExprs arguments
  | .array elements => returnlessExprs elements
  | .index container index => container.isReturnless && index.isReturnless
  | .hash pairs => returnlessPairs pairs
  | .rangeFor _ start stop body => start.isReturnless && stop.isReturnless && returnlessBlock body
  | .collectionFor _ _ body => returnlessBlock body
  | .new _ arguments => returnlessExprs arguments
  | .methodCall _ _ arguments => returnlessExprs arguments

/-- Whether no `return` stands in a statement, but in the bodies of functions, methods and constructors. -/
def Stmt.isReturnless : Stmt → Bool
  | .var _ value => value.isReturnless
  | .ret _ => false
  | .expr e => e.isReturnless
  | .function _ => true
  | .classDecl decl => decl.isReturnless

/-- Whether no `return` stands in a block, but in the bodies of functions, methods and constructors. -/
def returnlessBlock : List Stmt → Bool
  | [] => true
  | st :: rest => st.isReturnless && returnlessBlock rest

def returnlessExprs : List Expr → Bool
  | [] => true
  | e :: rest => e.isReturnless && returnlessExprs rest

def returnlessBranches : List Branch → Bool
  | [] => true
  | b :: rest => b.isReturnless && returnlessBranches rest

def Branch.isReturnless : Branch → Bool
  | ⟨condition, body⟩ => condition.isReturnless && returnlessBlock body

def returnlessOtherwise : Option (List Stmt) → Bool
  | none => true
  | some body => returnlessBlock body

def returnlessPairs : List KeyValue → Bool
  | [] => true
  | p :: rest => p.isReturnless && returnlessPairs rest

def KeyValue.isReturnless : KeyValue → Bool
  | ⟨key, value⟩ => key.isReturnless && value.isReturnless

def FieldDecl.isReturnless : FieldDecl → Bool
  | ⟨_, value⟩ => value.isReturnless

def returnlessFields : List FieldDecl → Bool
  | [] => true
  | f :: rest => f.isReturnless && returnlessFields rest

/-- Methods and the constructor are bodies of their own. -/
def ClassDecl.isReturnless : ClassDecl → Bool
  | ⟨_, fields, _, _⟩ => returnlessFields fields

end

/-- The expressions of a list one by one. -/
theorem returnlessExprs_iff {es : List Expr} : returnlessExprs es ↔ ∀ e ∈ es, e.isReturnless := by
  induction es with
  | nil => exact ⟨nofun, fun _ => rfl⟩
  | cons e es ih => rw [returnlessExprs, Bool.and_eq_true, ih, List.forall_mem_cons]

/-- The initial values of fields one by one. -/
theorem returnlessFields_iff {fields : List FieldDecl} :
    returnlessFields fields ↔ ∀ f ∈ fields, f.value.isReturnless := by
  induction fields with
  | nil => exact ⟨nofun, fun _ => rfl⟩
  | cons f fields ih =>
    obtain ⟨x, value⟩ := f
    rw [returnlessFields, Bool.and_eq_true, ih, List.forall_mem_cons, FieldDecl.isReturnless]

namespace Eval

/-! ## Evaluations -/

variable {α β : Type}

/-- Evaluations that do not stop at a `return`, on whatever store. -/
def Returnless (x : Eval α) : Prop := ∀ s v t, x s ≠ .error (.returned v) t

namespace Returnless

theorem pure (a : α) : Returnless (Pure.pure a) := nofun

/-- Errors are no `return`. -/
theorem fail (e : RuntimeError) : Returnless (Eval.fail e : Eval α) := nofun

theorem get : Returnless (MonadState.get : Eval Store) := nofun

theorem set (s : Store) : Returnless (MonadStateOf.set s : Eval PUnit) := nofun

theorem modifyGet (f : Store → α × Store) : Returnless (MonadStateOf.modifyGet f : Eval α) := nofun

/-- Nothing is returned by the one and then by the other. -/
theorem bind {x : Eval α} {f : α → Eval β} (hx : Returnless x) (hf : ∀ a, Returnless (f a)) : Returnless (x >>= f) := by
  intro s v t h
  change EStateM.bind x f s = _ at h
  unfold EStateM.bind at h
  split at h
  · exact hf _ _ v t h
  · rename_i hx'
    cases h
    exact hx s v t hx'

/-- A call, a constructor and a unit take a `return` for the result. -/
theorem catchReturn (x : Eval Value) : Returnless (Eval.catchReturn x) := by
  intro s v t h
  unfold Eval.catchReturn at h
  split at h
  · cases h
  · rename_i hother
    exact hother v t h

theorem datum (v : Value) : Returnless (Eval.datum v) := nofun

theorem alloc (o : Object) : Returnless (Eval.alloc o) := nofun

theorem bindName (E : FrameId) (x : String) (v : Value) : Returnless (Eval.bind E x v) := nofun

theorem ofExcept (r : Except RuntimeError α) : Returnless (Eval.ofExcept r) := by cases r <;> exact nofun

theorem give (d : Datum) : Returnless (Eval.give d) := by cases d <;> exact nofun

/-- Nothing is returned by any of the rounds. -/
theorem forM {f : α → Eval Unit} (as : List α) (hf : ∀ a ∈ as, Returnless (f a)) : Returnless (as.forM f) := by
  induction as with
  | nil => exact pure ()
  | cons a as ih =>
    obtain ⟨ha, has⟩ := List.forall_mem_cons.1 hf
    exact ha.bind fun _ => ih has

/-- What is done only when a condition is met. -/
theorem require {c : Prop} [Decidable c] (e : RuntimeError) {f : Unit → Eval α} (hf : Returnless (f ())) :
    Returnless (if c then Eval.fail e >>= f else f ()) := by
  split
  · exact (fail e).bind fun _ => hf
  · exact hf

end Returnless

/-! ## Parts of the evaluator -/

/-- Evaluators that do not stop at a `return` where none stands. -/
def ReturnlessRec (rec : Expr → FrameId → Eval Value) : Prop :=
  ∀ e, e.isReturnless → ∀ E, Returnless (rec e E)

namespace Returnless

/-! What evaluates no expression. -/

theorem readName (x : String) (E : FrameId) : Returnless (Eval.readName x E) := by
  refine get.bind fun s => ?_
  split
  · exact pure _
  · split
    · exact alloc _
    · exact fail _

theorem readThis (x : String) (E : FrameId) : Returnless (Eval.readThis x E) := by
  refine get.bind fun s => ?_
  split
  · exact pure _
  · exact fail _

/-- A step of an integer fails or gives the integer. -/
theorem step (x : String) (up : Bool) (E : FrameId) : Returnless (Eval.step x up E) := by
  refine get.bind fun s => ?_
  split
  · exact fail _
  · refine (datum _).bind fun d => ?_
    split
    · exact (modifyGet _).bind fun _ => (modifyGet _).bind fun _ => pure _
    · exact fail _

theorem loopFrame (x : String) (E : FrameId) : Returnless (Eval.loopFrame x E) :=
  (modifyGet _).bind fun L => (bindName L x .null).bind fun _ => pure L

/-- Looking for a method fails or finds it. -/
theorem findMethod (object method : String) (E : FrameId) : Returnless (Eval.findMethod object method E) := by
  refine get.bind fun s => ?_
  split
  · exact fail _
  refine (datum _).bind fun d => ?_
  split
  · refine get.bind fun s => ?_
    split
    · exact fail _
    refine (datum _).bind fun d => ?_
    split
    · refine get.bind fun s => ?_
      split
      · exact fail _
      · exact pure _
    · exact fail _
  · exact fail _

theorem elementsOf (b : Builtin) (v : Value) : Returnless (Builtin.elementsOf b v) := by
  refine (datum v).bind fun d => ?_
  split
  · exact pure _
  · exact fail _

theorem lenOf (v : Value) : Returnless (Builtin.lenOf v) := by
  refine (datum v).bind fun d => ?_
  split
  · exact alloc _
  · exact alloc _
  · exact alloc _
  · exact fail _

/-- None of the ways to add returns. -/
theorem addTo (target : Value) (arguments : List Value) : Returnless (Builtin.addTo target arguments) := by
  refine (datum target).bind fun d => ?_
  split
  · exact alloc _
  · exact fail _
  · refine (datum _).bind fun d => ?_
    split
    · exact alloc _
    · exact fail _
  · exact fail _
  · exact fail _

theorem removeElement (elements : List Value) (position : Value) :
    Returnless (Builtin.removeElement elements position) := by
  unfold Builtin.removeElement
  refine require _ ((datum position).bind fun d => ?_)
  split
  · split
    · exact alloc _
    · exact fail _
  · exact fail _

theorem removeEntry (target : ObjectId) (entries : List HashEntry) (key : Value) :
    Returnless (Builtin.removeEntry target entries key) := by
  unfold Builtin.removeEntry
  refine require _ ((datum key).bind fun d => ?_)
  split
  · split
    · exact (modifyGet _).bind fun _ => pure _
    · exact fail _
  · exact fail _

/-- None of the ways to remove returns. -/
theorem removeFrom (target key : Value) : Returnless (Builtin.removeFrom target key) := by
  refine (datum target).bind fun d => ?_
  split
  · exact removeElement _ key
  · exact removeEntry _ _ key
  · exact fail _

/-- Built-in functions fail or give a value. -/
theorem call (b : Builtin) (arguments : List Value) : Returnless (b.call arguments) := by
  unfold Builtin.call
  split
  · exact lenOf _
  · exact (elementsOf .first _).bind fun _ => pure _
  · exact (elementsOf .last _).bind fun _ => pure _
  · refine (elementsOf .rest _).bind fun elements => ?_
    cases elements with
    | nil => exact pure _
    | cons => exact alloc _
  · exact addTo _ _
  · exact removeFrom _ _
  · exact (modifyGet _).bind fun _ => pure _
  all_goals exact fail _

/-! What is called runs its body to the end, whatever evaluates the expressions in it. -/

section Calls

variable (library : Library) (rec : Expr → FrameId → Eval Value)

/-- A program ends every `return` of its statements. -/
theorem program (p : Program) (E : FrameId) : Returnless (Eval.program rec p E) := catchReturn _

/-- A call ends every `return` of the body. -/
theorem callClosure (closure : Closure) (arguments : List Value) :
    Returnless (Eval.callClosure rec closure arguments) := by
  unfold Eval.callClosure
  refine require _ ((modifyGet _).bind fun F => ?_)
  exact (forM _ fun p _ => bindName F p.1 p.2).bind fun _ => catchReturn _

/-- Functions and built-in functions are called alike, and nothing else can be. -/
theorem apply (f : Value) (arguments : List Value) : Returnless (Eval.apply rec f arguments) := by
  refine (datum f).bind fun d => ?_
  split
  · exact callClosure rec _ arguments
  · exact call _ arguments
  · exact fail _

/-- A unit runs as a program of its own. -/
theorem classOfUnit (className : String) (E : FrameId) : Returnless (Eval.classOfUnit library rec className E) := by
  refine (modifyGet _).bind fun _ => ?_
  split
  · exact fail _
  · refine (program rec _ E).bind fun _ => get.bind fun s => ?_
    split
    · exact pure _
    · exact fail _

/-- A class is there, or comes from a unit. -/
theorem findClass (className : String) (E : FrameId) : Returnless (Eval.findClass library rec className E) := by
  refine get.bind fun s => ?_
  split
  · exact pure _
  · exact classOfUnit library rec className E

end Calls

section Nodes

variable {library : Library} {rec : Expr → FrameId → Eval Value} (hrec : ReturnlessRec rec)

include hrec

/-- Names are assigned to, and the value has no `return`. -/
theorem assign (target : Expr) {value : Expr} (hvalue : value.isReturnless) (E : FrameId) :
    Returnless (Eval.assign rec target value E) := by
  cases target with
  | name x =>
    refine (hrec value hvalue E).bind fun v => get.bind fun s => ?_
    split
    · exact (set _).bind fun _ => pure _
    · exact fail _
  | thisName x =>
    refine (hrec value hvalue E).bind fun v => get.bind fun s => ?_
    split
    · exact (set _).bind fun _ => pure _
    · exact fail _
  | _ => exact fail _

/-- The fields of a class are evaluated where it is declared; its methods and its constructor are not run. -/
theorem defineClass {decl : ClassDecl} (hdecl : decl.isReturnless) (E : FrameId) :
    Returnless (Eval.defineClass rec decl E) := by
  obtain ⟨name, fields, methods, init⟩ := decl
  rw [ClassDecl.isReturnless] at hdecl
  have hfields (C : FrameId) : Returnless (fields.forM fun field => do Eval.bind C field.name (← rec field.value C)) :=
    forM fields fun field hfield => (hrec _ (returnlessFields_iff.1 hdecl field hfield) C).bind fun v => bindName C _ v
  have hmethods (C : FrameId) :
      Returnless (methods.forM fun method => do Eval.bind C method.name (← declare method C)) :=
    forM methods fun method _ => (alloc _).bind fun v => bindName C _ v
  have hclass (C : FrameId) : Returnless (do Eval.bind E name (← Eval.alloc (.inst name C))) :=
    (alloc _).bind fun v => bindName E _ v
  refine (modifyGet _).bind fun C => (hfields C).bind fun _ => (hmethods C).bind fun _ => ?_
  cases init with
  | none => exact (pure ()).bind fun _ => hclass C
  | some init => exact (alloc _).bind fun v => (bindName C _ v).bind fun _ => hclass C

/-- Functions and methods may hold any statements: their bodies run in calls. -/
theorem stmt {st : Stmt} (hst : st.isReturnless) (E : FrameId) : Returnless (Eval.stmt rec st E) := by
  unfold Stmt.isReturnless at hst
  cases st with
  | var x value => exact (hrec value hst E).bind fun v => (bindName E x v).bind fun _ => pure _
  | ret value => cases hst
  | expr e => exact hrec e hst E
  | function decl => exact (alloc _).bind fun v => (bindName E _ v).bind fun _ => pure _
  | classDecl decl => exact (defineClass hrec hst E).bind fun _ => pure _

/-- A block returns only what one of its statements returns. -/
theorem blockFrom {body : List Stmt} (hbody : returnlessBlock body) (last : Value) (E : FrameId) :
    Returnless (Eval.blockFrom rec last body E) := by
  induction body generalizing last with
  | nil => exact pure _
  | cons st body ih =>
    rw [returnlessBlock, Bool.and_eq_true] at hbody
    exact (stmt hrec hbody.1 E).bind fun v => ih hbody.2 v

theorem block {body : List Stmt} (hbody : returnlessBlock body) (E : FrameId) : Returnless (Eval.block rec body E) :=
  blockFrom hrec hbody .null E

theorem exprs {es : List Expr} (hes : returnlessExprs es) (E : FrameId) : Returnless (Eval.exprs rec es E) := by
  induction es with
  | nil => exact pure _
  | cons e es ih =>
    rw [returnlessExprs, Bool.and_eq_true] at hes
    exact (hrec e hes.1 E).bind fun v => (ih hes.2).bind fun vs => pure _

/-- Neither the conditions nor the blocks behind them return. -/
theorem conditional {branches : List Branch} {otherwise : Option (List Stmt)} (hbranches : returnlessBranches branches)
    (hotherwise : returnlessOtherwise otherwise) (E : FrameId) :
    Returnless (Eval.conditional rec branches otherwise E) := by
  induction branches with
  | nil =>
    cases otherwise with
    | none => exact pure _
    | some body => exact block hrec hotherwise E
  | cons b rest ih =>
    obtain ⟨condition, body⟩ := b
    rw [returnlessBranches, Branch.isReturnless, Bool.and_eq_true, Bool.and_eq_true] at hbranches
    obtain ⟨⟨hcondition, hbody⟩, hrest⟩ := hbranches
    refine (hrec condition hcondition E).bind fun c => (datum c).bind fun d => ?_
    split
    · exact block hrec hbody E
    · exact ih hrest

/-- Neither keys nor values return. -/
theorem hashPairs {pairs : List KeyValue} (hpairs : returnlessPairs pairs) (entries : List HashEntry) (E : FrameId) :
    Returnless (Eval.hashPairs rec pairs entries E) := by
  induction pairs generalizing entries with
  | nil => exact alloc _
  | cons p rest ih =>
    obtain ⟨key, value⟩ := p
    rw [returnlessPairs, KeyValue.isReturnless, Bool.and_eq_true, Bool.and_eq_true] at hpairs
    obtain ⟨⟨hkey, hvalue⟩, hrest⟩ := hpairs
    refine (hrec key hkey E).bind fun k => (datum k).bind fun d => ?_
    split
    · exact fail _
    · exact (hrec value hvalue E).bind fun v => ih hrest _

theorem round (x : String) {body : List Stmt} (hbody : returnlessBlock body) (L : FrameId) (v : Value) :
    Returnless (Eval.round rec x body L v) := (bindName L x v).bind fun _ => block hrec hbody L

/-- The rounds of a loop over numbers, by induction on how many are left. -/
theorem countRounds (x : String) {body : List Stmt} (hbody : returnlessBlock body) (L : FrameId) (delta : Int64)
    (n : Nat) (k : Int64) (last : Value) : Returnless (Eval.countRounds rec x body L delta n k last) := by
  induction n generalizing k last with
  | zero => exact pure _
  | succ n ih => exact (alloc _).bind fun v => (round hrec x hbody L v).bind fun last => ih _ last

/-- The rounds of a loop over values, by induction on the list. -/
theorem valueRounds (x : String) {body : List Stmt} (hbody : returnlessBlock body) (L : FrameId) (vs : List Value)
    (last : Value) : Returnless (Eval.valueRounds rec x body L vs last) := by
  induction vs generalizing last with
  | nil => exact pure _
  | cons v vs ih => exact (round hrec x hbody L v).bind fun last => ih last

theorem loopBound (bound : LoopBound) {e : Expr} (he : e.isReturnless) (E : FrameId) :
    Returnless (Eval.loopBound rec bound e E) := by
  refine (hrec e he E).bind fun v => (datum v).bind fun d => ?_
  split
  · exact pure _
  · exact fail _

/-- The bounds of a loop and its body have no `return`. -/
theorem rangeFor (x : String) {start stop : Expr} {body : List Stmt} (hstart : start.isReturnless)
    (hstop : stop.isReturnless) (hbody : returnlessBlock body) (E : FrameId) :
    Returnless (Eval.rangeFor rec x start stop body E) :=
  (loopBound hrec .start hstart E).bind fun a => (loopBound hrec .stop hstop E).bind fun _ =>
    (loopFrame x E).bind fun L => countRounds hrec x hbody L _ _ a .null

theorem collectionFor (x collection : String) {body : List Stmt} (hbody : returnlessBlock body) (E : FrameId) :
    Returnless (Eval.collectionFor rec x collection body E) := by
  refine get.bind fun s => ?_
  split
  · exact fail _
  · refine (datum _).bind fun d => ?_
    split
    · exact (loopFrame x E).bind fun L => valueRounds hrec x hbody L _ .null
    · exact fail _

/-- Each argument of a constructor is an expression without `return`. -/
theorem initArguments (className : String) (I F : FrameId) {arguments : List (ConstructorParam × Expr)}
    (harguments : ∀ p ∈ arguments, p.2.isReturnless) (E : FrameId) :
    Returnless (Eval.initArguments rec className I F arguments E) := by
  induction arguments with
  | nil => exact pure ()
  | cons p rest ih =>
    obtain ⟨p, argument⟩ := p
    obtain ⟨hargument, hrest⟩ := List.forall_mem_cons.1 harguments
    unfold Eval.initArguments
    split
    · refine (hrec argument hargument I).bind fun v => get.bind fun s => ?_
      split
      · exact (set _).bind fun _ => ih hrest
      · exact (fail _).bind fun _ => ih hrest
    · exact (hrec argument hargument E).bind fun v => (bindName F _ v).bind fun _ => ih hrest

/-- The body of a constructor is run to its end, the arguments are not part of it. -/
theorem construct (className : String) (init : Constructor) (I : FrameId) {arguments : List Expr}
    (harguments : returnlessExprs arguments) (E : FrameId) :
    Returnless (Eval.construct rec className init I arguments E) := by
  have hzip : ∀ p ∈ init.parameters.zip arguments, p.2.isReturnless :=
    fun p hp => returnlessExprs_iff.1 harguments p.2 (List.of_mem_zip (a := p.1) (b := p.2) hp).2
  unfold Eval.construct
  refine require _ ((modifyGet _).bind fun F => (initArguments hrec className I F hzip E).bind fun _ => ?_)
  exact (catchReturn _).bind fun _ => pure ()

/-- The constructor runs as a call; without one there is nothing to run. -/
theorem initInstance (className : String) (I : FrameId) {arguments : List Expr}
    (harguments : returnlessExprs arguments) (E : FrameId) :
    Returnless (Eval.initInstance rec className I arguments E) := by
  refine get.bind fun s => ?_
  split
  · split
    · exact fail _
    · exact pure ()
  · refine (datum _).bind fun d => ?_
    split
    · exact construct hrec className _ I harguments E
    · exact fail _

theorem instantiate (className name : String) (T : FrameId) {arguments : List Expr}
    (harguments : returnlessExprs arguments) (E : FrameId) :
    Returnless (Eval.instantiate rec className name T arguments E) :=
  (modifyGet _).bind fun I => (initInstance hrec className I harguments E).bind fun _ => alloc _

/-- Finding the class and starting the instance are free of `return`. -/
theorem makeInstance (className : String) {arguments : List Expr} (harguments : returnlessExprs arguments)
    (E : FrameId) : Returnless (Eval.makeInstance library rec className arguments E) := by
  refine (findClass library rec className E).bind fun v => (datum v).bind fun d => ?_
  split
  · exact instantiate hrec className _ _ harguments E
  · exact fail _

/-- Arguments have no `return`, and the method is called like a function. -/
theorem callMethod (object method : String) {arguments : List Expr} (harguments : returnlessExprs arguments)
    (E : FrameId) : Returnless (Eval.callMethod rec object method arguments E) :=
  (findMethod object method E).bind fun _ => (exprs hrec harguments _).bind fun vs => callClosure rec _ vs

/-- One expression, when those inside it do not stop at a `return`. -/
theorem node {e : Expr} (he : e.isReturnless) (E : FrameId) : Returnless (Eval.node library rec e E) := by
  unfold Expr.isReturnless at he
  cases e with
  | null | boolean => exact pure _
  | integer | real | text | function => exact alloc _
  | name x => exact readName x E
  | thisName x => exact readThis x E
  | unary op operand =>
    exact (hrec operand he E).bind fun v => (datum v).bind fun d => (ofExcept _).bind fun r => give r
  | binary op left right =>
    obtain ⟨hleft, hright⟩ := Bool.and_eq_true_iff.1 he
    cases op with
    | assign => exact assign hrec left hright E
    | _ =>
      exact (hrec left hleft E).bind fun l => (hrec right hright E).bind fun r => get.bind fun s =>
        (ofExcept _).bind fun d => give d
  | conditional branches otherwise =>
    obtain ⟨hbranches, hotherwise⟩ := Bool.and_eq_true_iff.1 he
    exact conditional hrec hbranches hotherwise E
  | call function arguments =>
    obtain ⟨hfunction, harguments⟩ := Bool.and_eq_true_iff.1 he
    exact (hrec function hfunction E).bind fun f => (exprs hrec harguments E).bind fun vs => apply rec f vs
  | array elements => exact (exprs hrec he E).bind fun vs => alloc _
  | index container index =>
    obtain ⟨hcontainer, hindex⟩ := Bool.and_eq_true_iff.1 he
    exact (hrec container hcontainer E).bind fun c => (hrec index hindex E).bind fun i => get.bind fun s => ofExcept _
  | hash pairs => exact hashPairs hrec he [] E
  | rangeFor x start stop body =>
    obtain ⟨hbounds, hbody⟩ := Bool.and_eq_true_iff.1 he
    obtain ⟨hstart, hstop⟩ := Bool.and_eq_true_iff.1 hbounds
    exact rangeFor hrec x hstart hstop hbody E
  | collectionFor x collection body => exact collectionFor hrec x collection he E
  | new className arguments => exact makeInstance hrec className he E
  | methodCall object method arguments => exact callMethod hrec object method he E
  | increment x => exact step x true E
  | decrement x => exact step x false E

end Nodes

end Returnless

/-! ## Evaluations of any depth -/

/-- An evaluation of an expression in which no `return` stands does not stop at one. -/
theorem returnlessRec_expr (library : Library) (n : Nat) : ReturnlessRec (expr library n) := by
  induction n with
  | zero => exact fun e _ E => nofun
  | succ n ih => exact fun e he E => Returnless.node ih he E

/-- The outcome of such an evaluation is another one. -/
theorem Returnless.outcome {x : Eval Value} (hx : Returnless x) (s : Store) (v : Value) :
    (Outcome.of x s).1 ≠ .returned v := by
  intro h
  unfold Outcome.of at h
  split at h <;> cases h
  rename_i hstop
  exact hx s v _ hstop

end Eval

/-- **A `return` does not leave a call.** Whatever the functions, methods, constructors and units do that are run
meanwhile, an evaluation ends at a `return` only where one stands in the text itself; a program and a call never do. -/
theorem returnless_outcome (library : Library) (n : Nat) (E : FrameId) (s : Store) (v : Value) :
    (∀ e, e.isReturnless → (Outcome.of (Eval.expr library n e E) s).1 ≠ .returned v) ∧
    (∀ st, st.isReturnless → (Outcome.of (Eval.stmt (Eval.expr library n) st E) s).1 ≠ .returned v) ∧
    (∀ body, returnlessBlock body → (Outcome.of (Eval.block (Eval.expr library n) body E) s).1 ≠ .returned v) ∧
    (∀ p, (Outcome.of (Eval.program (Eval.expr library n) p E) s).1 ≠ .returned v) ∧
    ∀ f arguments, (Outcome.of (Eval.apply (Eval.expr library n) f arguments) s).1 ≠ .returned v := by
  have hrec := Eval.returnlessRec_expr library n
  refine ⟨fun e he => ?_, fun st hst => ?_, fun body hbody => ?_, fun p => ?_, fun f arguments => ?_⟩
  · exact (hrec e he E).outcome s v
  · exact (Eval.Returnless.stmt hrec hst E).outcome s v
  · exact (Eval.Returnless.block hrec hbody E).outcome s v
  · exact (Eval.Returnless.program (Eval.expr library n) p E).outcome s v
  · exact (Eval.Returnless.apply (Eval.expr library n) f arguments).outcome s v

/-- A class with a method and a constructor that return, whose field is what a function returns. -/
def returningClass : ClassDecl where
  name := "C"
  fields := [⟨"x", .call (.function ⟨[], [.ret (.integer 1)]⟩) []⟩]
  methods := [⟨"m", ⟨[], [.ret (.integer 2)]⟩, true⟩]
  init := some ⟨[], [.ret (.integer 3)]⟩

theorem returningClass_outcome :
    (Expr.new "C" []).isReturnless ∧ (Stmt.classDecl returningClass).isReturnless ∧
      returnlessBlock [.classDecl returningClass, .expr (.new "C" [])] ∧
      ∀ v,
        (Outcome.of (Eval.expr (Library.ofUnits []) 3 (.new "C" []) Session.start.frame) Session.start.store).1 ≠
          .returned v ∧
        (Outcome.of (Eval.stmt (Eval.expr (Library.ofUnits []) 3) (.classDecl returningClass) Session.start.frame)
          Session.start.store).1 ≠ .returned v ∧
        (Outcome.of (Eval.block (Eval.expr (Library.ofUnits []) 3)
          [.classDecl returningClass, .expr (.new "C" [])] Session.start.frame) Session.start.store).1 ≠
            .returned v := by
  have hclass : (Stmt.classDecl returningClass).isReturnless := by decide
  have hblock : returnlessBlock [.classDecl returningClass, .expr (.new "C" [])] := by decide
  refine ⟨rfl, hclass, hblock, fun v => ?_⟩
  obtain ⟨hexpr, hstmt, hbody, _⟩ :=
    returnless_outcome (Library.ofUnits []) 3 Session.start.frame Session.start.store v
  exact ⟨hexpr _ rfl, hstmt _ hclass, hbody _ hblock⟩

end Pron
