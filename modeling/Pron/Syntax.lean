/-!
# Abstract syntax

A program is a list of statements. Expressions, statements and the bodies of functions and classes are defined
together. Names that introduce something are plain text; only an expression can be written `this.x`, which reads
the name in the outermost frame.

Where an initial value is omitted, or where a part of the source could not be read, the tree holds `Expr.null`.
-/

namespace Pron

/-- Operators before their operand. -/
inductive UnaryOp
  | not | negate
  deriving DecidableEq, Inhabited, Repr

/-- Operators between their operands. -/
inductive BinaryOp
  | assign | add | sub | mul | div | mod | eq | ne | lt | gt
  deriving DecidableEq, Inhabited, Repr

/-- A parameter of a constructor; a field parameter, written `this.x`, sets the field of its name. -/
structure ConstructorParam where
  name : String
  isField : Bool
  deriving DecidableEq, Inhabited, Repr

mutual

/-- Expressions. -/
inductive Expr
  | null
  | name (x : String)
  | thisName (x : String)
  | integer (n : Int64)
  | real (x : Float)
  | text (s : String)
  | boolean (b : Bool)
  | unary (op : UnaryOp) (operand : Expr)
  | binary (op : BinaryOp) (left right : Expr)
  | conditional (branches : List Branch) (otherwise : Option (List Stmt))
  | function (literal : FunctionLit)
  | call (function : Expr) (arguments : List Expr)
  | array (elements : List Expr)
  | index (container index : Expr)
  | hash (pairs : List KeyValue)
  | rangeFor (x : String) (start stop : Expr) (body : List Stmt)
  | collectionFor (x collection : String) (body : List Stmt)
  | new (className : String) (arguments : List Expr)
  | methodCall (object method : String) (arguments : List Expr)
  | increment (x : String)
  | decrement (x : String)

/-- Statements. -/
inductive Stmt
  | var (x : String) (value : Expr)
  | ret (value : Expr)
  | expr (e : Expr)
  | function (decl : FunctionDecl)
  | classDecl (decl : ClassDecl)

/-- One arm of a conditional. -/
structure Branch where
  condition : Expr
  body : List Stmt

/-- A key with its value in a hash literal. -/
structure KeyValue where
  key : Expr
  value : Expr

/-- The parameters and the body of a function. -/
structure FunctionLit where
  parameters : List String
  body : List Stmt

/-- A named function. A public one can be called as a method from everywhere. -/
structure FunctionDecl where
  name : String
  literal : FunctionLit
  isPublic : Bool

/-- A field with its initial value. -/
structure FieldDecl where
  name : String
  value : Expr

/-- The parameters and the body of a constructor. -/
structure Constructor where
  parameters : List ConstructorParam
  body : List Stmt

/-- A class. -/
structure ClassDecl where
  name : String
  fields : List FieldDecl
  methods : List FunctionDecl
  init : Option Constructor

end

instance : Inhabited Expr := ⟨.null⟩

instance : Inhabited Stmt := ⟨.expr .null⟩

/-- A whole program. -/
abbrev Program := List Stmt

end Pron
