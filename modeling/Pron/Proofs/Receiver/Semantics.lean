import Pron.Session

/-!
# Evaluation for a receiver

Every text is evaluated for a receiver: the frame of the object that `this.` means in it. Here the receiver is handed
down. `Receiver.expr` is told it, next to the frame to evaluate in, and never looks for a root. A part of an expression,
of a statement, of a block or of a loop is for the receiver of the whole. A function is for the receiver of the text
that made it, and the state notes this when the function is made, so it does not matter from where it is called.

The receiver changes in few places. The fields and methods of a class statement are for the class. The methods that an
instance gets from its class, and the body of its constructor, are for the instance, and so are the arguments that go
straight into its fields. The arguments of a method call are for the object whose method is called.

All else is done as in `Eval`.
-/

namespace Pron

namespace Receiver

/-- A store, with the receiver of each function that was made. -/
structure State where
  store : Store
  madeFor : Value → FrameId

/-- Evaluations that keep account of the receivers of functions. -/
abbrev Run (α : Type) : Type := EStateM Stop State α

/-- An action that makes no functions. -/
def lift {α : Type} (x : Eval α) : Run α := fun σ =>
  match x σ.store with
  | .ok a s => .ok a { σ with store := s }
  | .error stop s => .error stop { σ with store := s }

/-- Ends the program with an error. -/
def fail {α : Type} (e : RuntimeError) : Run α := throw (.failed e)

/-- Takes a `return` for the result. -/
def catchReturn (action : Run Value) : Run Value := fun σ =>
  match action σ with
  | .error (.returned v) σ => .ok v σ
  | outcome => outcome

/-- Makes a function for a receiver. -/
def makeFunction (R : FrameId) (closure : Closure) : Run Value := do
  let f ← lift (Eval.alloc (.function closure))
  modify fun σ => { σ with madeFor := fun v => if v = f then R else σ.madeFor v }
  return f

section Nodes

variable (library : Library) (rec : FrameId → Expr → FrameId → Run Value)

/-! ## Names -/

/-- The value that the receiver binds to a name. -/
def readThis (R : FrameId) (x : String) : Run Value := do
  match (← get).store.localValue? R x with
  | some v => return v
  | none => fail (.notFoundThis x)

/-- Gives a new value to what the receiver binds. -/
def assignThis (R : FrameId) (x : String) (v : Value) : Run Value := do
  match (← get).store.localValue? R x with
  | some _ =>
    lift (Eval.bind R x v)
    return v
  | none => fail (.notDefinedThis x)

/-- Gives a new value to what is already bound. -/
def assign (R : FrameId) (target value : Expr) (E : FrameId) : Run Value := do
  match target with
  | .name x =>
    let v ← rec R value E
    match (← get).store.update? E x v with
    | some s =>
      lift (set s)
      return v
    | none => fail (.notDefined x)
  | .thisName x =>
    let v ← rec R value E
    assignThis R x v
  | target => fail (.notAssignable target)

/-! ## Statements -/

/-- The function of a declaration, made in a frame. -/
def declare (R : FrameId) (decl : FunctionDecl) (E : FrameId) : Run Value :=
  makeFunction R ⟨decl.literal, E, decl.isPublic⟩

/-- Defines a class. Its text is for the class itself. -/
def defineClass (decl : ClassDecl) (E : FrameId) : Run Unit := do
  let C ← lift (modifyGet Store.newRoot)
  decl.fields.forM fun field => do lift (Eval.bind C field.name (← rec C field.value C))
  decl.methods.forM fun method => do lift (Eval.bind C method.name (← declare C method C))
  match decl.init with
  | some init => lift (Eval.bind C Eval.initName (← lift (Eval.alloc (.init init C))))
  | none => pure ()
  lift (Eval.bind E decl.name (← lift (Eval.alloc (.inst decl.name C))))

/-- Runs a statement. -/
def stmt (R : FrameId) (st : Stmt) (E : FrameId) : Run Value := do
  match st with
  | .var x value =>
    lift (Eval.bind E x (← rec R value E))
    return .null
  | .ret value => throw (.returned (← rec R value E))
  | .expr e => rec R e E
  | .function decl =>
    lift (Eval.bind E decl.name (← declare R decl E))
    return .null
  | .classDecl decl =>
    defineClass rec decl E
    return .null

/-- Runs statements; the value is that of the last one, or `last` if there is none. -/
def blockFrom (R : FrameId) (last : Value) : List Stmt → FrameId → Run Value
  | [], _ => return last
  | st :: rest, E => do
    let v ← stmt rec R st E
    blockFrom R v rest E

/-- Runs the statements of a block. -/
def block (R : FrameId) (body : List Stmt) (E : FrameId) : Run Value := blockFrom rec R .null body E

/-- Runs a program, which a `return` may end early. -/
def program (R : FrameId) (p : Program) (E : FrameId) : Run Value := catchReturn (block rec R p E)

/-! ## Expressions -/

/-- Values of expressions, from left to right. -/
def exprs (R : FrameId) : List Expr → FrameId → Run (List Value)
  | [], _ => return []
  | e :: rest, E => do
    let v ← rec R e E
    let vs ← exprs R rest E
    return v :: vs

/-- Runs the first arm whose condition holds. -/
def conditional (R : FrameId) : List Branch → Option (List Stmt) → FrameId → Run Value
  | [], none, _ => return .null
  | [], some body, E => block rec R body E
  | b :: rest, otherwise, E => do
    let condition ← rec R b.condition E
    if (← lift (Eval.datum condition)).isTruthy then block rec R b.body E
    else conditional R rest otherwise E

/-- Enters the pairs of a hash literal one after the other. -/
def hashPairs (R : FrameId) : List KeyValue → List HashEntry → FrameId → Run Value
  | [], entries, _ => lift (Eval.alloc (.hash entries))
  | p :: rest, entries, E => do
    let key ← rec R p.key E
    let d ← lift (Eval.datum key)
    match d.keyContent? with
    | none => fail (.unusableKey d.type)
    | some content =>
      let value ← rec R p.value E
      hashPairs R rest (Entries.insert ⟨content, key, value⟩ entries) E

/-- Calls a function for a receiver. -/
def callClosure (R : FrameId) (closure : Closure) (arguments : List Value) : Run Value := do
  let parameters := closure.literal.parameters
  if parameters.length ≠ arguments.length then fail (.wrongArguments arguments.length parameters.length)
  let F ← lift (modifyGet (·.newChild closure.frame))
  (parameters.zip arguments).forM fun (x, v) => lift (Eval.bind F x v)
  catchReturn (block rec R closure.literal.body F)

/-- Calls a function, for the receiver for which it was made, or a built-in function. -/
def apply (f : Value) (arguments : List Value) : Run Value := do
  match ← lift (Eval.datum f) with
  | .object (.function closure) => callClosure rec ((← get).madeFor f) closure arguments
  | .object (.builtin b) => lift (b.call arguments)
  | d => fail (.notCallable d.type)

/-! ## Loops -/

/-- One round of a loop in its frame. -/
def round (R : FrameId) (x : String) (body : List Stmt) (L : FrameId) (v : Value) : Run Value := do
  lift (Eval.bind L x v)
  block rec R body L

/-- The rounds of a counting loop that are still to run. -/
def countRounds (R : FrameId) (x : String) (body : List Stmt) (L : FrameId) (delta : Int64) :
    Nat → Int64 → Value → Run Value
  | 0, _, last => return last
  | n + 1, k, _ => do
    let v ← round rec R x body L (← lift (Eval.alloc (.integer k)))
    countRounds R x body L delta n (k + delta) v

/-- The rounds of a loop over values. -/
def valueRounds (R : FrameId) (x : String) (body : List Stmt) (L : FrameId) : List Value → Value → Run Value
  | [], last => return last
  | v :: rest, _ => do
    let last ← round rec R x body L v
    valueRounds R x body L rest last

/-- The value of a bound of a counting loop. -/
def loopBound (R : FrameId) (bound : LoopBound) (e : Expr) (E : FrameId) : Run Int64 := do
  match ← lift (Eval.datum (← rec R e E)) with
  | .object (.integer n) => return n
  | d => fail (.loopBound bound d.type)

/-- Counts from `start` up or down to `stop`, which is left out. -/
def rangeFor (R : FrameId) (x : String) (start stop : Expr) (body : List Stmt) (E : FrameId) : Run Value := do
  let a ← loopBound rec R .start start E
  let b ← loopBound rec R .stop stop E
  let L ← lift (Eval.loopFrame x E)
  countRounds rec R x body L (if a < b then 1 else -1) (b.toInt - a.toInt).natAbs a .null

/-- Runs a body for the elements that an array has at the start. -/
def collectionFor (R : FrameId) (x collection : String) (body : List Stmt) (E : FrameId) : Run Value := do
  match (← get).store.get? E collection with
  | none => fail (.notDefined collection)
  | some target =>
    match ← lift (Eval.datum target) with
    | .object (.array elements) =>
      let L ← lift (Eval.loopFrame x E)
      valueRounds rec R x body L elements .null
    | d => fail (.notLoopable d.type)

/-! ## Classes and objects -/

/-- Finds a class by running the unit of its name where the class is wanted, for the receiver of that place. -/
def classOfUnit (R : FrameId) (className : String) (E : FrameId) : Run Value := do
  lift (modify (·.request className))
  match library className with
  | .error _ => fail (.noClass className)
  | .ok source =>
    let _ ← program rec R (parseSource source).program E
    match (← get).store.get? E className with
    | some v => return v
    | none => fail (.noClass className)

/-- The value of a name that has to be a class. -/
def findClass (R : FrameId) (className : String) (E : FrameId) : Run Value := do
  match (← get).store.get? E className with
  | some v => return v
  | none => classOfUnit library rec R className E

/-- Passes arguments to a constructor. Those for fields are for the instance, the others for the text around `new`. -/
def initArguments (R : FrameId) (className : String) (I F : FrameId) :
    List (ConstructorParam × Expr) → FrameId → Run Unit
  | [], _ => return ()
  | (p, argument) :: rest, E => do
    if p.isField then
      let v ← rec I argument I
      match (← get).store.update? I p.name v with
      | some s => lift (set s)
      | none => fail (.notAField p.name className)
    else
      let v ← rec R argument E
      lift (Eval.bind F p.name v)
    initArguments R className I F rest E

/-- Runs a constructor on the frame of an instance, for the instance. -/
def construct (R : FrameId) (className : String) (init : Constructor) (I : FrameId) (arguments : List Expr)
    (E : FrameId) : Run Unit := do
  if init.parameters.length ≠ arguments.length then
    fail (.wrongArguments arguments.length init.parameters.length)
  let F ← lift (modifyGet (·.newChild I))
  initArguments rec R className I F (init.parameters.zip arguments) E
  let _ ← catchReturn (block rec I init.body F)
  return ()

/-- Runs the constructor that the frame of an instance binds, if it binds one. -/
def initInstance (R : FrameId) (className : String) (I : FrameId) (arguments : List Expr) (E : FrameId) :
    Run Unit := do
  match (← get).store.get? I Eval.initName with
  | none =>
    if arguments.length ≠ 0 then fail (.noArgumentsExpected className arguments.length)
  | some init =>
    match ← lift (Eval.datum init) with
    | .object (.init constructor _) => construct rec R className constructor I arguments E
    | _ => fail (.notAConstructor className)

/-- The frame of a new instance. The functions of its class become functions for the instance. -/
def instanceFrame (T : FrameId) : Run FrameId := do
  let I ← lift (Eval.ofStore (Store.copyFrame T))
  let s := (← get).store
  (s.functionsOf T (s.bindings I)).forM fun (x, closure) => do
    let method ← makeFunction I { closure with frame := I }
    lift (Eval.bind I x method)
  return I

/-- Makes an instance from the frame of a class. -/
def instantiate (R : FrameId) (className name : String) (T : FrameId) (arguments : List Expr) (E : FrameId) :
    Run Value := do
  let I ← instanceFrame T
  initInstance rec R className I arguments E
  lift (Eval.alloc (.inst name I))

/-- Makes an instance of a class. -/
def makeInstance (R : FrameId) (className : String) (arguments : List Expr) (E : FrameId) : Run Value := do
  match ← lift (Eval.datum (← findClass library rec R className E)) with
  | .object (.inst name T) => instantiate rec R className name T arguments E
  | _ => fail (.notAClass className)

/-- The method that a call means, with the receiver for which it was made and the instance. -/
def findMethod (R : FrameId) (object method : String) (E : FrameId) : Run (FrameId × Closure × FrameId) := do
  match (← get).store.get? E object with
  | none => fail (.notDefined object)
  | some target =>
    match ← lift (Eval.datum target) with
    | .object (.inst _ I) =>
      match (← get).store.get? I method with
      | none => fail (.noMethod method)
      | some f =>
        match ← lift (Eval.datum f) with
        | .object (.function closure) =>
          if !closure.isPublic && R ≠ I then fail (.notPublic method object)
          return ((← get).madeFor f, closure, I)
        | d => fail (.notAMethod method d.type)
    | d => fail (.notAnObject object d.type)

/-- Calls a method, for the receiver for which it was made; its arguments are for the instance. -/
def callMethod (R : FrameId) (object method : String) (arguments : List Expr) (E : FrameId) : Run Value := do
  let (M, closure, I) ← findMethod R object method E
  let vs ← exprs rec I arguments I
  callClosure rec M closure vs

/-! ## One expression -/

/-- Evaluates an expression for a receiver by evaluating the expressions inside it. -/
def node (R : FrameId) (e : Expr) (E : FrameId) : Run Value := do
  match e with
  | .null => return .null
  | .name x => lift (Eval.readName x E)
  | .thisName x => readThis R x
  | .integer n => lift (Eval.alloc (.integer n))
  | .real x => lift (Eval.alloc (.real x))
  | .text s => lift (Eval.alloc (.text s))
  | .boolean b => return .boolean b
  | .unary op operand =>
    let v ← rec R operand E
    lift do Eval.give (← Eval.ofExcept (Operator.unary op (← Eval.datum v)))
  | .binary .assign target value => assign rec R target value E
  | .binary op left right =>
    let l ← rec R left E
    let r ← rec R right E
    lift do Eval.give (← Eval.ofExcept (Operator.binary (← get) op l r))
  | .conditional branches otherwise => conditional rec R branches otherwise E
  | .function literal => makeFunction R ⟨literal, E, true⟩
  | .call function arguments =>
    let f ← rec R function E
    let vs ← exprs rec R arguments E
    apply rec f vs
  | .array elements =>
    let vs ← exprs rec R elements E
    lift (Eval.alloc (.array vs))
  | .index container index =>
    let c ← rec R container E
    let i ← rec R index E
    lift do Eval.ofExcept (Operator.index (← get) c i)
  | .hash pairs => hashPairs rec R pairs [] E
  | .rangeFor x start stop body => rangeFor rec R x start stop body E
  | .collectionFor x collection body => collectionFor rec R x collection body E
  | .new className arguments => makeInstance library rec R className arguments E
  | .methodCall object method arguments => callMethod rec R object method arguments E
  | .increment x => lift (Eval.step x true E)
  | .decrement x => lift (Eval.step x false E)

end Nodes

/-- Evaluates an expression for a receiver, with evaluations nested less than the given depth. -/
def expr (library : Library) : Nat → FrameId → Expr → FrameId → Run Value
  | 0, _, _, _ => throw .tooDeep
  | n + 1, R, e, E => node library (expr library n) R e E

/-! ## Sessions -/

/-- The state in which a run ends. -/
def finalState {α : Type} : EStateM.Result Stop State α → State
  | .ok _ σ => σ
  | .error _ σ => σ

/-- The states of sessions between programs. A program is for the frame that it runs in. -/
inductive Reached : State → Prop
  | start (madeFor : Value → FrameId) : Reached ⟨Session.start.store, madeFor⟩
  | run {σ : State} (library : Library) (n : Nat) (p : Program) : Reached σ → Reached
      (finalState (program (expr library n) Session.start.frame p Session.start.frame σ))

end Receiver

end Pron
