import Pron.Json
import Pron.Syntax

/-!
# Syntax trees in JSON

A node with parts is an object with one field, named for the kind of node. Names are objects that tell whether the name
was written behind `this.`.
-/

namespace Pron

namespace Json

/-- An object with a single field. -/
def tagged (tag : String) (value : Json) : Json := .object [(tag, value)]

/-- A name. -/
def ofName (x : String) : Json := .object [("name", .text x), ("this_prefixed", .boolean false)]

/-- A name behind `this.`. -/
def ofThisName (x : String) : Json := .object [("name", .text x), ("this_prefixed", .boolean true)]

end Json

open Json (tagged ofName ofThisName)

/-- The name of an operator in a tree. -/
def UnaryOp.tag : UnaryOp → String
  | not => "Bang"
  | negate => "Minus"

/-- The name of an operator in a tree. -/
def BinaryOp.tag : BinaryOp → String
  | assign => "Assign"
  | add => "Plus"
  | sub => "Minus"
  | mul => "Multiply"
  | div => "Divide"
  | mod => "Modulo"
  | eq => "Eq"
  | ne => "NotEq"
  | lt => "Lt"
  | gt => "Gt"

/-- The tree of a parameter of a constructor. -/
def ConstructorParam.toJson (p : ConstructorParam) : Json :=
  .object [("name", ofName p.name), ("this_bound", .boolean p.isField)]

mutual

/-- The tree of an expression. -/
def Expr.toJson : Expr → Json
  | .null => .text "Null"
  | .name x => tagged "Identifier" (ofName x)
  | .thisName x => tagged "Identifier" (ofThisName x)
  | .integer n => tagged "Integer" (.integer n)
  | .real x => tagged "Real" (.real x)
  | .text s => tagged "Str" (.text s)
  | .boolean b => tagged "Boolean" (.boolean b)
  | .unary op operand => tagged "Prefix" (.object [("operator", .text op.tag), ("right", operand.toJson)])
  | .binary op left right =>
    tagged "Infix" (.object [("left", left.toJson), ("operator", .text op.tag), ("right", right.toJson)])
  | .conditional branches otherwise =>
    tagged "If" (.object [("branches", .array (branchesJson branches)), ("alternative", otherwiseJson otherwise)])
  | .function literal => tagged "Function" literal.toJson
  | .call function arguments =>
    tagged "Call" (.object [("function", function.toJson), ("arguments", .array (exprsJson arguments))])
  | .array elements => tagged "Array" (.array (exprsJson elements))
  | .index container index => tagged "Index" (.object [("left", container.toJson), ("index", index.toJson)])
  | .hash pairs => tagged "Hash" (.array (pairsJson pairs))
  | .rangeFor x start stop body =>
    tagged "RangeFor"
      (.object [("variable", ofName x), ("from", start.toJson), ("to", stop.toJson), ("body", blockJson body)])
  | .collectionFor x collection body =>
    tagged "CollectionFor"
      (.object [("variable", ofName x), ("collection", ofName collection), ("body", blockJson body)])
  | .new className arguments =>
    tagged "New" (.object [("class", ofName className), ("arguments", .array (exprsJson arguments))])
  | .methodCall object method arguments =>
    tagged "MethodCall"
      (.object
        [("object", ofName object), ("method", ofName method), ("arguments", .array (exprsJson arguments))])
  | .increment x => tagged "Increment" (ofName x)
  | .decrement x => tagged "Decrement" (ofName x)

/-- The tree of a statement. -/
def Stmt.toJson : Stmt → Json
  | .var x value => tagged "Var" (.object [("name", ofName x), ("value", value.toJson)])
  | .ret value => tagged "Return" value.toJson
  | .expr e => tagged "Expression" e.toJson
  | .function decl => tagged "Function" decl.toJson
  | .classDecl decl => tagged "Class" decl.toJson

/-- The statements of a block or of a program. -/
def blockJson (body : List Stmt) : Json := .object [("statements", .array (stmtsJson body))]

def stmtsJson : List Stmt → List Json
  | [] => []
  | s :: rest => s.toJson :: stmtsJson rest

def exprsJson : List Expr → List Json
  | [] => []
  | e :: rest => e.toJson :: exprsJson rest

def Branch.toJson : Branch → Json
  | ⟨condition, body⟩ => .object [("condition", condition.toJson), ("consequence", blockJson body)]

def branchesJson : List Branch → List Json
  | [] => []
  | b :: rest => b.toJson :: branchesJson rest

def otherwiseJson : Option (List Stmt) → Json
  | none => .null
  | some body => blockJson body

def KeyValue.toJson : KeyValue → Json
  | ⟨key, value⟩ => .array [key.toJson, value.toJson]

def pairsJson : List KeyValue → List Json
  | [] => []
  | p :: rest => p.toJson :: pairsJson rest

def FunctionLit.toJson : FunctionLit → Json
  | ⟨parameters, body⟩ =>
    .object [("parameters", .array (parameters.map fun x => ofName x)), ("body", blockJson body)]

def FunctionDecl.toJson : FunctionDecl → Json
  | ⟨name, literal, isPublic⟩ =>
    .object [("name", ofName name), ("function", literal.toJson), ("is_public", .boolean isPublic)]

def methodsJson : List FunctionDecl → List Json
  | [] => []
  | m :: rest => m.toJson :: methodsJson rest

def FieldDecl.toJson : FieldDecl → Json
  | ⟨name, value⟩ => .object [("name", ofName name), ("value", value.toJson)]

def fieldsJson : List FieldDecl → List Json
  | [] => []
  | f :: rest => f.toJson :: fieldsJson rest

def Constructor.toJson : Constructor → Json
  | ⟨parameters, body⟩ =>
    .object [("parameters", .array (parameters.map ConstructorParam.toJson)), ("body", blockJson body)]

def initJson : Option Constructor → Json
  | none => .null
  | some init => init.toJson

def ClassDecl.toJson : ClassDecl → Json
  | ⟨name, fields, methods, init⟩ =>
    .object
      [("name", ofName name), ("fields", .array (fieldsJson fields)), ("methods", .array (methodsJson methods)),
        ("constructor", initJson init)]

end

end Pron
