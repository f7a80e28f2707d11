import Pron.Eval.Operator
import Pron.Eval.Builtin
import Pron.Library
import Pron.Syntax.Parse

/-!
# Evaluation

An expression is evaluated in a frame. The evaluation of one expression is written in terms of the evaluation `rec` of
the expressions inside it and in the bodies that it runs; `expr` ties the knot, with a bound on how deep evaluations may
be nested. Statements and blocks are evaluated by evaluating the expressions in them.

Blocks of conditionals run in the frame around them. Loops open one frame for all their rounds, calls one for each call;
the frame of a call lies inside the frame in which the function was made.
-/

namespace Pron.Eval

section Nodes

variable (library : Library) (rec : Expr → FrameId → Eval Value)

/-! ## Names -/

/-- The value of a name; where nothing binds it, it may be a built-in function. -/
def readName (x : String) (E : FrameId) : Eval Value := do
  match (← get).get? E x with
  | some v => return v
  | none =>
    match Builtin.ofName? x with
    | some b => alloc (.builtin b)
    | none => fail (.notFound x)

/-- The value that the root binds to a name. -/
def readThis (x : String) (E : FrameId) : Eval Value := do
  match (← get).rootValue? E x with
  | some v => return v
  | none => fail (.notFoundThis x)

/-- Binds a name in the frame itself. -/
def bind (E : FrameId) (x : String) (v : Value) : Eval Unit := modify (·.set E x v)

/-- Gives a new value to what is already bound. -/
def assign (target : Expr) (value : Expr) (E : FrameId) : Eval Value := do
  match target with
  | .name x =>
    let v ← rec value E
    match (← get).update? E x v with
    | some s =>
      set s
      return v
    | none => fail (.notDefined x)
  | .thisName x =>
    let v ← rec value E
    match (← get).updateRoot? E x v with
    | some s =>
      set s
      return v
    | none => fail (.notDefinedThis x)
  | target => fail (.notAssignable target)

/-- Adds one to an integer, or subtracts one, in its own place. -/
def step (x : String) (up : Bool) (E : FrameId) : Eval Value := do
  match (← get).get? E x with
  | none => fail (.notDefined x)
  | some v =>
    match ← datum v, v with
    | .object (.integer n), .ref id =>
      modify (·.write id (.integer (if up then n + 1 else n - 1)))
      modify fun s => (s.update? E x v).getD s
      return v
    | d, _ => fail (.unknownStep d.type up)

/-! ## Statements -/

/-- The function of a declaration, made in a frame. -/
def declare (decl : FunctionDecl) (E : FrameId) : Eval Value :=
  alloc (.function ⟨decl.literal, E, decl.isPublic⟩)

/-- The name under which a class binds its constructor. -/
def initName : String := "Init"

/-- Defines a class: fills a new frame with fields, methods and constructor. -/
def defineClass (decl : ClassDecl) (E : FrameId) : Eval Unit := do
  let C ← modifyGet Store.newRoot
  decl.fields.forM fun field => do bind C field.name (← rec field.value C)
  decl.methods.forM fun method => do bind C method.name (← declare method C)
  match decl.init with
  | some init => bind C initName (← alloc (.init init C))
  | none => pure ()
  bind E decl.name (← alloc (.inst decl.name C))

/-- Runs a statement. Only an expression has a value of its own. -/
def stmt (st : Stmt) (E : FrameId) : Eval Value := do
  match st with
  | .var x value =>
    bind E x (← rec value E)
    return .null
  | .ret value => throw (.returned (← rec value E))
  | .expr e => rec e E
  | .function decl =>
    bind E decl.name (← declare decl E)
    return .null
  | .classDecl decl =>
    defineClass rec decl E
    return .null

/-- Runs statements; the value is that of the last one, or `last` if there is none. -/
def blockFrom (last : Value) : List Stmt → FrameId → Eval Value
  | [], _ => return last
  | st :: rest, E => do
    let v ← stmt rec st E
    blockFrom v rest E

/-- Runs the statements of a block; without any the value is `null`. -/
def block (body : List Stmt) (E : FrameId) : Eval Value := blockFrom rec .null body E

/-- Runs a program, which a `return` may end early. -/
def program (p : Program) (E : FrameId) : Eval Value := catchReturn (block rec p E)

/-! ## Expressions -/

/-- Values of expressions, from left to right. -/
def exprs : List Expr → FrameId → Eval (List Value)
  | [], _ => return []
  | e :: rest, E => do
    let v ← rec e E
    let vs ← exprs rest E
    return v :: vs

/-- Runs the first arm whose condition holds. -/
def conditional : List Branch → Option (List Stmt) → FrameId → Eval Value
  | [], none, _ => return .null
  | [], some body, E => block rec body E
  | b :: rest, otherwise, E => do
    let condition ← rec b.condition E
    if (← datum condition).isTruthy then block rec b.body E
    else conditional rest otherwise E

/-- Enters the pairs of a hash literal one after the other; a later pair takes the place of one with the same key. -/
def hashPairs : List KeyValue → List HashEntry → FrameId → Eval Value
  | [], entries, _ => alloc (.hash entries)
  | p :: rest, entries, E => do
    let key ← rec p.key E
    let d ← datum key
    match d.keyContent? with
    | none => fail (.unusableKey d.type)
    | some content =>
      let value ← rec p.value E
      hashPairs rest (Entries.insert ⟨content, key, value⟩ entries) E

/-- Calls a function with a new frame for its parameters. -/
def callClosure (closure : Closure) (arguments : List Value) : Eval Value := do
  let parameters := closure.literal.parameters
  if parameters.length ≠ arguments.length then fail (.wrongArguments arguments.length parameters.length)
  let F ← modifyGet (·.newChild closure.frame)
  (parameters.zip arguments).forM fun (x, v) => bind F x v
  catchReturn (block rec closure.literal.body F)

/-- Calls a function or a built-in function. -/
def apply (f : Value) (arguments : List Value) : Eval Value := do
  match ← datum f with
  | .object (.function closure) => callClosure rec closure arguments
  | .object (.builtin b) => b.call arguments
  | d => fail (.notCallable d.type)

/-! ## Loops -/

/-- One round of a loop in its frame. -/
def round (x : String) (body : List Stmt) (L : FrameId) (v : Value) : Eval Value := do
  bind L x v
  block rec body L

/-- The rounds of a counting loop that are still to run. The variable of each is a new integer. -/
def countRounds (x : String) (body : List Stmt) (L : FrameId) (delta : Int64) : Nat → Int64 → Value → Eval Value
  | 0, _, last => return last
  | n + 1, k, _ => do
    let v ← round rec x body L (← alloc (.integer k))
    countRounds x body L delta n (k + delta) v

/-- The rounds of a loop over values. -/
def valueRounds (x : String) (body : List Stmt) (L : FrameId) : List Value → Value → Eval Value
  | [], last => return last
  | v :: rest, _ => do
    let last ← round rec x body L v
    valueRounds x body L rest last

/-- The frame of a loop, in which its variable is bound from the start. -/
def loopFrame (x : String) (E : FrameId) : Eval FrameId := do
  let L ← modifyGet (·.newChild E)
  bind L x .null
  return L

/-- The value of a bound of a counting loop. -/
def loopBound (bound : LoopBound) (e : Expr) (E : FrameId) : Eval Int64 := do
  match ← datum (← rec e E) with
  | .object (.integer n) => return n
  | d => fail (.loopBound bound d.type)

/-- Counts from `start` up or down to `stop`, which is left out. -/
def rangeFor (x : String) (start stop : Expr) (body : List Stmt) (E : FrameId) : Eval Value := do
  let a ← loopBound rec .start start E
  let b ← loopBound rec .stop stop E
  let L ← loopFrame x E
  countRounds rec x body L (if a < b then 1 else -1) (b.toInt - a.toInt).natAbs a .null

/-- Runs a body for the elements that an array has at the start. -/
def collectionFor (x collection : String) (body : List Stmt) (E : FrameId) : Eval Value := do
  match (← get).get? E collection with
  | none => fail (.notDefined collection)
  | some target =>
    match ← datum target with
    | .object (.array elements) =>
      let L ← loopFrame x E
      valueRounds rec x body L elements .null
    | d => fail (.notLoopable d.type)

/-! ## Classes and objects -/

/-- Finds a class by running the unit of its name in the frame where the class is wanted. -/
def classOfUnit (className : String) (E : FrameId) : Eval Value := do
  modify (·.request className)
  match library className with
  | .error _ => fail (.noClass className)
  | .ok source =>
    let _ ← program rec (parseSource source).program E
    match (← get).get? E className with
    | some v => return v
    | none => fail (.noClass className)

/-- The value of a name that has to be a class. -/
def findClass (className : String) (E : FrameId) : Eval Value := do
  match (← get).get? E className with
  | some v => return v
  | none => classOfUnit library rec className E

/-- Passes arguments to a constructor. Those for fields are evaluated inside the instance, the others outside. -/
def initArguments (className : String) (I F : FrameId) : List (ConstructorParam × Expr) → FrameId → Eval Unit
  | [], _ => return ()
  | (p, argument) :: rest, E => do
    if p.isField then
      let v ← rec argument I
      match (← get).update? I p.name v with
      | some s => set s
      | none => fail (.notAField p.name className)
    else
      let v ← rec argument E
      bind F p.name v
    initArguments className I F rest E

/-- Runs a constructor on the frame of an instance. -/
def construct (className : String) (init : Constructor) (I : FrameId) (arguments : List Expr) (E : FrameId) :
    Eval Unit := do
  if init.parameters.length ≠ arguments.length then
    fail (.wrongArguments arguments.length init.parameters.length)
  let F ← modifyGet (·.newChild I)
  initArguments rec className I F (init.parameters.zip arguments) E
  let _ ← catchReturn (block rec init.body F)
  return ()

/-- Runs the constructor that the frame of an instance binds, if it binds one. -/
def initInstance (className : String) (I : FrameId) (arguments : List Expr) (E : FrameId) : Eval Unit := do
  match (← get).get? I initName with
  | none =>
    if arguments.length ≠ 0 then fail (.noArgumentsExpected className arguments.length)
  | some init =>
    match ← datum init with
    | .object (.init constructor _) => construct rec className constructor I arguments E
    | _ => fail (.notAConstructor className)

/-- Makes an instance from the frame of a class. -/
def instantiate (className name : String) (T : FrameId) (arguments : List Expr) (E : FrameId) : Eval Value := do
  let I ← ofStore (Store.instanceFrame T)
  initInstance rec className I arguments E
  alloc (.inst name I)

/-- Makes an instance of a class. -/
def makeInstance (className : String) (arguments : List Expr) (E : FrameId) : Eval Value := do
  match ← datum (← findClass library rec className E) with
  | .object (.inst name T) => instantiate rec className name T arguments E
  | _ => fail (.notAClass className)

/-- The method that a call means. One that is not public can be called only from inside its own instance. -/
def findMethod (object method : String) (E : FrameId) : Eval (Closure × FrameId) := do
  match (← get).get? E object with
  | none => fail (.notDefined object)
  | some target =>
    match ← datum target with
    | .object (.inst _ I) =>
      match (← get).get? I method with
      | none => fail (.noMethod method)
      | some f =>
        match ← datum f with
        | .object (.function closure) =>
          if !closure.isPublic && (← get).root E ≠ I then fail (.notPublic method object)
          return (closure, I)
        | d => fail (.notAMethod method d.type)
    | d => fail (.notAnObject object d.type)

/-- Calls a method; its arguments are evaluated in the frame of the instance. -/
def callMethod (object method : String) (arguments : List Expr) (E : FrameId) : Eval Value := do
  let (closure, I) ← findMethod object method E
  let vs ← exprs rec arguments I
  callClosure rec closure vs

/-! ## One expression -/

/-- Evaluates an expression by evaluating the expressions inside it. -/
def node (e : Expr) (E : FrameId) : Eval Value := do
  match e with
  | .null => return .null
  | .name x => readName x E
  | .thisName x => readThis x E
  | .integer n => alloc (.integer n)
  | .real x => alloc (.real x)
  | .text s => alloc (.text s)
  | .boolean b => return .boolean b
  | .unary op operand =>
    let v ← rec operand E
    give (← ofExcept (Operator.unary op (← datum v)))
  | .binary .assign target value => assign rec target value E
  | .binary op left right =>
    let l ← rec left E
    let r ← rec right E
    give (← ofExcept (Operator.binary (← get) op l r))
  | .conditional branches otherwise => conditional rec branches otherwise E
  | .function literal => alloc (.function ⟨literal, E, true⟩)
  | .call function arguments =>
    let f ← rec function E
    let vs ← exprs rec arguments E
    apply rec f vs
  | .array elements => alloc (.array (← exprs rec elements E))
  | .index container index =>
    let c ← rec container E
    let i ← rec index E
    ofExcept (Operator.index (← get) c i)
  | .hash pairs => hashPairs rec pairs [] E
  | .rangeFor x start stop body => rangeFor rec x start stop body E
  | .collectionFor x collection body => collectionFor rec x collection body E
  | .new className arguments => makeInstance library rec className arguments E
  | .methodCall object method arguments => callMethod rec object method arguments E
  | .increment x => step x true E
  | .decrement x => step x false E

end Nodes

/-! ## Tying the knot -/

/-- Evaluates an expression, with evaluations nested less than the given depth. -/
def expr (library : Library) : Nat → Expr → FrameId → Eval Value
  | 0, _, _ => throw .tooDeep
  | n + 1, e, E => node library (expr library n) e E

end Pron.Eval
