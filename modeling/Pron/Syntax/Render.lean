import Pron.Syntax
import Pron.Double.Text
import Pron.Integer

/-!
# Canonical text

Every tree has a canonical text: operators and index expressions in parentheses, one space around operators and after
commas, no layout between statements. A class shows its fields first, then its constructor, then its methods.
-/

namespace Pron

namespace UnaryOp

/-- The spelling of an operator. -/
def symbol : UnaryOp → String
  | not => "!"
  | negate => "-"

end UnaryOp

namespace BinaryOp

/-- The spelling of an operator. -/
def symbol : BinaryOp → String
  | assign => "="
  | add => "+"
  | sub => "-"
  | mul => "*"
  | div => "/"
  | mod => "%"
  | eq => "=="
  | ne => "!="
  | lt => "<"
  | gt => ">"

end BinaryOp

namespace Render

/-- Items with a comma and a space between them. -/
def commas (items : List String) : String := ", ".intercalate items

/-- A text in braces. -/
def braces (inside : String) : String := "\x7b" ++ inside ++ "\x7d"

/-- A text in parentheses. -/
def parens (inside : String) : String := "(" ++ inside ++ ")"

end Render

open Render

/-- The canonical text of a parameter of a constructor. -/
def ConstructorParam.render (p : ConstructorParam) : String := if p.isField then "this." ++ p.name else p.name

mutual

/-- The canonical text of an expression. -/
def Expr.render : Expr → String
  | .null => "null"
  | .name x => x
  | .thisName x => "this." ++ x
  | .integer n => Integer.text n
  | .real x => Double.text x
  | .text s => "\"" ++ s ++ "\""
  | .boolean b => if b then "true" else "false"
  | .unary op operand => parens (op.symbol ++ operand.render)
  | .binary op left right => parens (left.render ++ " " ++ op.symbol ++ " " ++ right.render)
  | .conditional branches otherwise => renderBranches "if" branches ++ renderOtherwise otherwise
  | .function literal => literal.render "func"
  | .call function arguments => function.render ++ parens (commas (renderExprs arguments))
  | .array elements => "[" ++ commas (renderExprs elements) ++ "]"
  | .index container index => parens (container.render ++ "[" ++ index.render ++ "]")
  | .hash pairs => braces (commas (renderPairs pairs))
  | .rangeFor x start stop body =>
    "for " ++ parens (x ++ " from " ++ start.render ++ " to " ++ stop.render) ++ " " ++ braces (renderBlock body)
  | .collectionFor x collection body =>
    "for " ++ parens (x ++ " in " ++ collection) ++ " " ++ braces (renderBlock body)
  | .new className arguments => "new " ++ className ++ parens (commas (renderExprs arguments))
  | .methodCall object method arguments => object ++ "." ++ method ++ parens (commas (renderExprs arguments))
  | .increment x => x ++ "++"
  | .decrement x => x ++ "--"

/-- The canonical text of a statement. -/
def Stmt.render : Stmt → String
  | .var x value => "var " ++ x ++ " = " ++ value.render ++ ";"
  | .ret value => "return " ++ value.render ++ ";"
  | .expr e => e.render
  | .function decl => decl.render
  | .classDecl decl => decl.render

/-- The statements of a block or program, one after the other. -/
def renderBlock : List Stmt → String
  | [] => ""
  | s :: rest => s.render ++ renderBlock rest

def renderExprs : List Expr → List String
  | [] => []
  | e :: rest => e.render :: renderExprs rest

/-- The arms of a conditional; the keyword is `if` for the first one. -/
def renderBranches (keyword : String) : List Branch → String
  | [] => ""
  | b :: rest => keyword ++ " " ++ b.render ++ renderBranches " elif" rest

def Branch.render : Branch → String
  | ⟨condition, body⟩ => parens condition.render ++ " " ++ braces (renderBlock body)

def renderOtherwise : Option (List Stmt) → String
  | none => ""
  | some body => " else " ++ braces (renderBlock body)

def renderPairs : List KeyValue → List String
  | [] => []
  | p :: rest => p.render :: renderPairs rest

def KeyValue.render : KeyValue → String
  | ⟨key, value⟩ => key.render ++ ": " ++ value.render

/-- The parameters and the body of a function behind the words that introduce it. -/
def FunctionLit.render (head : String) : FunctionLit → String
  | ⟨parameters, body⟩ => head ++ parens (commas parameters) ++ " " ++ braces (renderBlock body)

def FunctionDecl.render : FunctionDecl → String
  | ⟨name, literal, _⟩ => literal.render ("func " ++ name)

def renderMethods : List FunctionDecl → String
  | [] => ""
  | m :: rest => m.render ++ renderMethods rest

def FieldDecl.render : FieldDecl → String
  | ⟨name, value⟩ => "var " ++ name ++ " = " ++ value.render ++ ";"

def renderFields : List FieldDecl → String
  | [] => ""
  | f :: rest => f.render ++ renderFields rest

def Constructor.render : Constructor → String
  | ⟨parameters, body⟩ =>
    "Init" ++ parens (commas (parameters.map ConstructorParam.render)) ++ " " ++ braces (renderBlock body)

def renderConstructor : Option Constructor → String
  | none => ""
  | some init => init.render

def ClassDecl.render : ClassDecl → String
  | ⟨name, fields, methods, init⟩ =>
    "class " ++ name ++ " " ++ braces (renderFields fields ++ renderConstructor init ++ renderMethods methods)

end

end Pron
