import Pron.Syntax

/-!
# What a text mentions

The names that stand anywhere in a program text, as the name of a variable, function, class, field, method or parameter,
and apart from them the classes that it makes instances of with `new`: such a class may be looked for in a unit.
-/

namespace Pron

/-- What a text can mention. -/
inductive Mention
  | name (x : String)
  | unit (className : String)
  deriving DecidableEq, Repr

mutual

/-- What an expression mentions. -/
def Expr.mentions : Expr → List Mention
  | .null | .integer _ | .real _ | .text _ | .boolean _ => []
  | .name x | .thisName x | .increment x | .decrement x => [.name x]
  | .unary _ operand => operand.mentions
  | .binary _ left right => left.mentions ++ right.mentions
  | .conditional branches otherwise => branchMentions branches ++ otherwiseMentions otherwise
  | .function literal => literal.mentions
  | .call function arguments => function.mentions ++ exprMentions arguments
  | .array elements => exprMentions elements
  | .index container index => container.mentions ++ index.mentions
  | .hash pairs => pairMentions pairs
  | .rangeFor x start stop body => .name x :: (start.mentions ++ (stop.mentions ++ blockMentions body))
  | .collectionFor x collection body => .name x :: .name collection :: blockMentions body
  | .new className arguments => .name className :: .unit className :: exprMentions arguments
  | .methodCall object method arguments => .name object :: .name method :: exprMentions arguments

/-- What a statement mentions. -/
def Stmt.mentions : Stmt → List Mention
  | .var x value => .name x :: value.mentions
  | .ret value => value.mentions
  | .expr e => e.mentions
  | .function decl => decl.mentions
  | .classDecl decl => decl.mentions

/-- What a block or program mentions. -/
def blockMentions : List Stmt → List Mention
  | [] => []
  | st :: rest => st.mentions ++ blockMentions rest

def exprMentions : List Expr → List Mention
  | [] => []
  | e :: rest => e.mentions ++ exprMentions rest

def branchMentions : List Branch → List Mention
  | [] => []
  | b :: rest => b.mentions ++ branchMentions rest

def Branch.mentions : Branch → List Mention
  | ⟨condition, body⟩ => condition.mentions ++ blockMentions body

def otherwiseMentions : Option (List Stmt) → List Mention
  | none => []
  | some body => blockMentions body

def pairMentions : List KeyValue → List Mention
  | [] => []
  | p :: rest => p.mentions ++ pairMentions rest

def KeyValue.mentions : KeyValue → List Mention
  | ⟨key, value⟩ => key.mentions ++ value.mentions

/-- What a function mentions, its parameters included. -/
def FunctionLit.mentions : FunctionLit → List Mention
  | ⟨parameters, body⟩ => parameters.map .name ++ blockMentions body

def FunctionDecl.mentions : FunctionDecl → List Mention
  | ⟨x, literal, _⟩ => .name x :: literal.mentions

def methodMentions : List FunctionDecl → List Mention
  | [] => []
  | m :: rest => m.mentions ++ methodMentions rest

def FieldDecl.mentions : FieldDecl → List Mention
  | ⟨x, value⟩ => .name x :: value.mentions

def fieldMentions : List FieldDecl → List Mention
  | [] => []
  | f :: rest => f.mentions ++ fieldMentions rest

/-- What a constructor mentions, its parameters included. -/
def Constructor.mentions : Constructor → List Mention
  | ⟨parameters, body⟩ => parameters.map (fun p => .name p.name) ++ blockMentions body

def initMentions : Option Constructor → List Mention
  | none => []
  | some init => init.mentions

/-- What a class statement mentions. -/
def ClassDecl.mentions : ClassDecl → List Mention
  | ⟨x, fields, methods, init⟩ => .name x :: (fieldMentions fields ++ (methodMentions methods ++ initMentions init))

end

end Pron
