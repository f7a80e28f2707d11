import Pron.Token.Scan
import Pron.Syntax
import Pron.Syntax.Step
import Pron.Double.Read
import Pron.Integer
import Pron.Text.UpperCase

/-!
# Parsing

Every list of tokens has a program and a list of errors.

    program   = statement*
    statement = "var" name ("=" expression)? ";"? | "return" expression? ";"?
              | "func" name parameters block ";"? | "class" name "{" member* "}" | expression ";"?
    member    = "var" name ("=" expression)? ";"? | "func" name parameters block ";"?
              | "Init" "(" (field | name), ... ")" block | ";"
    block     = "{" statement* "}"

Expressions are read by precedence climbing. Each handler starts with its first token as the current one and leaves its
last token current. Where a part of a construct is missing, an error is recorded and the construct is given up: a
statement that introduces a name is dropped, an expression becomes `Expr.null`, and reading goes on with the next token.

Handlers call each other through the parameters `expr` and `block`; `expr n` and `block n` tie the knot, with `n`
bounding both the depth of nesting and the rounds of each loop.
-/

namespace Pron

/-! ## Precedence -/

/-- How strongly the parts of an expression bind, the weakest first. -/
inductive Precedence
  | lowest | equality | comparison | sum | product | unary | call | index
  deriving DecidableEq, Repr

namespace Precedence

/-- The levels as numbers. -/
def rank : Precedence → Nat
  | lowest => 0
  | equality => 1
  | comparison => 2
  | sum => 3
  | product => 4
  | unary => 5
  | call => 6
  | index => 7

instance : LT Precedence := ⟨fun p q => p.rank < q.rank⟩

instance (p q : Precedence) : Decidable (p < q) := inferInstanceAs (Decidable (p.rank < q.rank))

end Precedence

/-- The binding strength of an operator. -/
def BinaryOp.precedence : BinaryOp → Precedence
  | assign | eq | ne => .equality
  | lt | gt => .comparison
  | add | sub => .sum
  | mul | div | mod => .product

/-- The ways to continue an expression. -/
inductive Continuation
  | operator (op : BinaryOp)
  | call
  | index
  deriving DecidableEq, Repr

namespace Continuation

/-- The continuation that a token starts. -/
def ofKind? : TokenKind → Option Continuation
  | .assign => some (operator .assign)
  | .plus => some (operator .add)
  | .minus => some (operator .sub)
  | .asterisk => some (operator .mul)
  | .slash => some (operator .div)
  | .modulo => some (operator .mod)
  | .eq => some (operator .eq)
  | .notEq => some (operator .ne)
  | .lt => some (operator .lt)
  | .gt => some (operator .gt)
  | .lparen => some call
  | .lbracket => some index
  | _ => none

/-- How strongly a continuation binds. -/
def precedence : Continuation → Precedence
  | operator op => op.precedence
  | call => .call
  | index => .index

end Continuation

/-- A function is public when its name starts with an upper-case letter. -/
def isPublicName (name : String) : Bool :=
  match name.toList with
  | c :: _ => Text.isUpperCase c
  | [] => false

namespace Parse

open Step

section Handlers

variable (rounds : Nat) (expr : Precedence → Step Expr) (block : Step (List Stmt))

/-- An expression, or `Expr.null` in place of one that cannot be read. -/
def exprOrNull : Step Expr := do
  return (← attempt (expr .lowest)).getD .null

/-- Arguments up to a closing token. -/
def arguments (close : TokenKind) : Step (List Expr) :=
  items rounds close do
    advance
    expr .lowest

/-- The parameters of a function, from the token before the opening parenthesis. -/
def parameters : Step (List String) := do
  expect .lparen
  items rounds .rparen name

/-- A block, from the token before the opening brace. -/
def bracedBlock : Step (List Stmt) := do
  expect .lbrace
  block

/-- Parameters and body of a function, from the token before the opening parenthesis. -/
def functionLit : Step FunctionLit := do
  let parameters ← parameters rounds
  let body ← bracedBlock block
  return { parameters, body }

/-! ## Expressions -/

/-- What starts with a name: a method call, a step up or down, or the name itself. -/
def nameForm : Step Expr := do
  let x ← literal
  match ← peek with
  | .dot =>
    advance
    let method ← name
    expect .lparen
    return .methodCall x method (← arguments rounds expr .rparen)
  | .increment =>
    advance
    return .increment x
  | .decrement =>
    advance
    return .decrement x
  | _ => return .name x

/-- A name behind `this.`. -/
def thisForm : Step Expr := do
  expect .dot
  return .thisName (← name)

/-- An integer, which has to be in range. -/
def integerForm : Step Expr := do
  let text ← literal
  match Integer.read? text with
  | some n => return .integer n
  | none =>
    report (.badInteger text)
    fail

/-- A real. -/
def realForm : Step Expr := do
  let text ← literal
  match Double.read? text with
  | some x => return .real x
  | none =>
    report (.badReal text)
    fail

/-- An operator and its operand. -/
def unaryForm (op : UnaryOp) : Step Expr := do
  advance
  return .unary op (← expr .unary)

/-- An expression in parentheses. -/
def groupForm : Step Expr := do
  advance
  let e ← expr .lowest
  expect .rparen
  return e

/-- The condition and the block of one arm, from the keyword before them. -/
def branch : Step Branch := do
  expect .lparen
  advance
  let condition ← expr .lowest
  expect .rparen
  let body ← bracedBlock block
  return { condition, body }

/-- The further arms of a conditional. -/
def moreBranches : Nat → Step (List Branch)
  | 0 => exhausted
  | n + 1 => do
    if (← peek) = .kwElif then
      advance
      let first ← branch expr block
      let rest ← moreBranches n
      return first :: rest
    else return []

/-- A conditional with its arms. -/
def conditionalForm : Step Expr := do
  let first ← branch expr block
  let more ← moreBranches expr block rounds
  if (← peek) = .kwElse then
    advance
    return .conditional (first :: more) (some (← bracedBlock block))
  else return .conditional (first :: more) none

/-- The pairs of a hash literal; a comma may follow the last one. -/
def hashPairs : Nat → Step (List KeyValue)
  | 0 => exhausted
  | n + 1 => do
    if (← peek) = .rbrace then return []
    else
      advance
      let key ← expr .lowest
      expect .colon
      advance
      let value ← expr .lowest
      if (← peek) ≠ .rbrace then expect .comma
      let rest ← hashPairs n
      return { key, value } :: rest

/-- A hash literal. -/
def hashForm : Step Expr := do
  let pairs ← hashPairs expr rounds
  expect .rbrace
  return .hash pairs

/-- A loop; the word behind its variable tells of which kind. -/
def loopForm : Step Expr := do
  expect .lparen
  let x ← name
  match ← peek with
  | .kwFrom =>
    advance
    advance
    let start ← expr .lowest
    expect .kwTo
    advance
    let stop ← expr .lowest
    expect .rparen
    return .rangeFor x start stop (← bracedBlock block)
  | .kwIn =>
    advance
    let collection ← name
    expect .rparen
    return .collectionFor x collection (← bracedBlock block)
  | got =>
    report (.expectedEither .kwFrom .kwIn got)
    fail

/-- The making of an instance. -/
def newForm : Step Expr := do
  let className ← name
  expect .lparen
  return .new className (← arguments rounds expr .rparen)

/-- An expression up to its first continuation. -/
def operand : Step Expr := do
  match ← kind with
  | .ident => nameForm rounds expr
  | .kwThis => thisForm
  | .int => integerForm
  | .real => realForm
  | .str => return .text (← literal)
  | .kwTrue => return .boolean true
  | .kwFalse => return .boolean false
  | .bang => unaryForm expr .not
  | .minus => unaryForm expr .negate
  | .lparen => groupForm expr
  | .kwIf => conditionalForm rounds expr block
  | .kwFunc => return .function (← functionLit rounds block)
  | .lbracket => return .array (← arguments rounds expr .rbracket)
  | .lbrace => hashForm rounds expr
  | .kwFor => loopForm expr block
  | .kwNew => newForm rounds expr
  | got =>
    report (.noExpression got)
    fail

/-- Continues `left`, with the token that starts the continuation as the current one. -/
def continueWith (left : Expr) : Continuation → Step Expr
  | .operator op => do
    advance
    return .binary op left (← expr op.precedence)
  | .call => return .call left (← arguments rounds expr .rparen)
  | .index => do
    advance
    let index ← expr .lowest
    expect .rbracket
    return .index left index

/-- Continues an expression with all that binds more strongly than `p`. -/
def continuations (p : Precedence) : Nat → Expr → Step Expr
  | 0, _ => exhausted
  | n + 1, left => do
    match Continuation.ofKind? (← peek) with
    | none => return left
    | some c =>
      if p < c.precedence then
        advance
        let longer ← continueWith rounds expr left c
        continuations p n longer
      else return left

/-- An expression of parts that bind more strongly than `p`. -/
def expression (p : Precedence) : Step Expr := do
  let left ← operand rounds expr block
  continuations rounds expr p rounds left

/-! ## Statements -/

/-- A name with its initial value, from the token before the name. -/
def binding : Step (String × Expr) := do
  let x ← name
  let value ←
    if (← peek) = .assign then do
      advance
      advance
      exprOrNull expr
    else pure .null
  passSemicolon
  return (x, value)

/-- A named function, from the keyword on. -/
def functionDecl : Step FunctionDecl := do
  let name ← name
  let literal ← functionLit rounds block
  passSemicolon
  return { name, literal, isPublic := isPublicName name }

/-- A parameter of a constructor, which is the current token or starts with it. -/
def constructorParam : Step ConstructorParam := do
  match ← kind with
  | .kwThis =>
    expect .dot
    return { name := ← name, isField := true }
  | .ident => return { name := ← literal, isField := false }
  | got =>
    report (.expected .ident got)
    fail

/-- A constructor, from the keyword on. -/
def constructor : Step Constructor := do
  expect .lparen
  let parameters ← items rounds .rparen do
    advance
    constructorParam
  let body ← bracedBlock block
  return { parameters, body }

/-- Adds the member that starts with the current token to a class. What is no member is left out. -/
def member (decl : ClassDecl) : Step ClassDecl := do
  match ← kind with
  | .kwVar =>
    match ← attempt (binding expr) with
    | some (name, value) => return { decl with fields := decl.fields ++ [{ name, value }] }
    | none => return decl
  | .kwFunc =>
    match ← attempt (functionDecl rounds block) with
    | some method => return { decl with methods := decl.methods ++ [method] }
    | none => return decl
  | .kwInit =>
    if decl.init.isSome then report (.secondInit decl.name)
    match ← attempt (constructor rounds block) with
    | some init => return { decl with init := some init }
    | none => return decl
  | .semicolon => return decl
  | got =>
    report (.notAMember got decl.name)
    return decl

/-- The members of a class up to its closing brace. -/
def members : Nat → ClassDecl → Step ClassDecl
  | 0, _ => exhausted
  | n + 1, decl => do
    match ← kind with
    | .rbrace => return decl
    | .eof =>
      report (.expected .rbrace .eof)
      fail
    | _ =>
      let decl ← member rounds expr block decl
      advance
      members n decl

/-- A class, from the keyword on. -/
def classDecl : Step ClassDecl := do
  let name ← name
  expect .lbrace
  advance
  members rounds expr block rounds { name, fields := [], methods := [], init := none }

/-- A `return`, whose value may be left out before the end of a statement or block. -/
def returnStatement : Step Stmt := do
  let value ←
    match ← peek with
    | .semicolon | .rbrace | .eof => pure .null
    | _ => do
      advance
      exprOrNull expr
  passSemicolon
  return .ret value

/-- An expression as a statement. -/
def expressionStatement : Step Stmt := do
  let e ← exprOrNull expr
  passSemicolon
  return .expr e

/-- The statement that starts with the current token. A `func` starts a declaration only when a name follows. -/
def statement : Step Stmt := do
  match ← kind, ← peek with
  | .kwVar, _ =>
    let (x, value) ← binding expr
    return .var x value
  | .kwReturn, _ => returnStatement expr
  | .kwFunc, .ident => return .function (← functionDecl rounds block)
  | .kwClass, _ => return .classDecl (← classDecl rounds expr block)
  | _, _ => expressionStatement expr

/-- Statements up to a token that ends them. A statement that cannot be read is left out. -/
def statements (ends : TokenKind → Bool) : Nat → Step (List Stmt)
  | 0 => exhausted
  | n + 1 => do
    if ends (← kind) then return []
    else
      let first ← attempt (statement rounds expr block)
      advance
      let rest ← statements ends n
      return first.toList ++ rest

/-- The statements of a block, from the opening brace on. -/
def blockBody : Step (List Stmt) := do
  advance
  let body ← statements rounds expr block (fun k => k == .rbrace || k == .eof) rounds
  if (← kind) = .eof then report (.expected .rbrace .eof)
  return body

end Handlers

/-! ## Tying the knot -/

mutual

/-- Expressions, nested less than the given depth. -/
def expr : Nat → Precedence → Step Expr
  | 0, _ => exhausted
  | n + 1, p => expression n (expr n) (block n) p

/-- Blocks, nested less than the given depth. -/
def block : Nat → Step (List Stmt)
  | 0 => exhausted
  | n + 1 => blockBody n (expr n) (block n)

end

/-- All statements up to the end of the source. -/
def program (rounds : Nat) : Step (List Stmt) :=
  statements rounds (expr rounds) (block rounds) (fun k => k == .eof) rounds

end Parse

/-- A program with the errors found in it. -/
structure Parsed where
  program : Program
  errors : List SyntaxError

/-- Reads a program from tokens. Nesting and loops use up tokens, so one round more than there are tokens is enough. -/
def parse (tokens : List Token) : Parsed :=
  match Parse.program (tokens.length + 1) tokens with
  | some ⟨some program, errors, _⟩ => ⟨program, errors⟩
  | some ⟨none, errors, _⟩ => ⟨[], errors⟩
  | none => ⟨[], []⟩

/-- Reads a program from its source text. -/
def parseSource (source : String) : Parsed := parse (scan source)

end Pron
