import Pron.Syntax
import Pron.Double

/-!
# Plain programs

A program is plain when every part of it is there, all its reals are finite, and in the program and in every block an
expression is a statement only at the end. These are the programs that their canonical text says everything about: an
omitted value is written `null`, which is a name, a real that is not finite has no literal, and an expression statement
is written without a semicolon, so that what comes after would go on with it.
-/

namespace Pron

namespace Stmt

/-- Whether a statement is an expression. -/
def isExpr : Stmt → Bool
  | .expr _ => true
  | _ => false

end Stmt

mutual

/-- Whether an expression is plain. -/
def Expr.isPlain : Expr → Bool
  | .null => false
  | .real x => (Double.parts? x).isSome
  | .name _ | .thisName _ | .integer _ | .text _ | .boolean _ | .increment _ | .decrement _ => true
  | .unary _ operand => operand.isPlain
  | .binary _ left right => left.isPlain && right.isPlain
  | .conditional branches otherwise => plainBranches branches && plainOtherwise otherwise
  | .function literal => literal.isPlain
  | .call function arguments => function.isPlain && plainExprs arguments
  | .array elements => plainExprs elements
  | .index container index => container.isPlain && index.isPlain
  | .hash pairs => plainPairs pairs
  | .rangeFor _ start stop body => start.isPlain && stop.isPlain && plainBlock body
  | .collectionFor _ _ body => plainBlock body
  | .new _ arguments => plainExprs arguments
  | .methodCall _ _ arguments => plainExprs arguments

/-- Whether a statement is plain. -/
def Stmt.isPlain : Stmt → Bool
  | .var _ value => value.isPlain
  | .ret value => value.isPlain
  | .expr e => e.isPlain
  | .function decl => decl.isPlain
  | .classDecl decl => decl.isPlain

/-- Whether the statements of a block or program are plain. -/
def plainBlock : List Stmt → Bool
  | [] => true
  | s :: rest => s.isPlain && (!s.isExpr || rest.isEmpty) && plainBlock rest

def plainExprs : List Expr → Bool
  | [] => true
  | e :: rest => e.isPlain && plainExprs rest

def plainBranches : List Branch → Bool
  | [] => true
  | b :: rest => b.isPlain && plainBranches rest

def Branch.isPlain : Branch → Bool
  | ⟨condition, body⟩ => condition.isPlain && plainBlock body

def plainOtherwise : Option (List Stmt) → Bool
  | none => true
  | some body => plainBlock body

def plainPairs : List KeyValue → Bool
  | [] => true
  | p :: rest => p.isPlain && plainPairs rest

def KeyValue.isPlain : KeyValue → Bool
  | ⟨key, value⟩ => key.isPlain && value.isPlain

def FunctionLit.isPlain : FunctionLit → Bool
  | ⟨_, body⟩ => plainBlock body

def FunctionDecl.isPlain : FunctionDecl → Bool
  | ⟨_, literal, _⟩ => literal.isPlain

def plainMethods : List FunctionDecl → Bool
  | [] => true
  | m :: rest => m.isPlain && plainMethods rest

def FieldDecl.isPlain : FieldDecl → Bool
  | ⟨_, value⟩ => value.isPlain

def plainFields : List FieldDecl → Bool
  | [] => true
  | f :: rest => f.isPlain && plainFields rest

def Constructor.isPlain : Constructor → Bool
  | ⟨_, body⟩ => plainBlock body

def plainConstructor : Option Constructor → Bool
  | none => true
  | some init => init.isPlain

def ClassDecl.isPlain : ClassDecl → Bool
  | ⟨_, fields, methods, init⟩ => plainFields fields && plainConstructor init && plainMethods methods

end

/-! ## Lists of parts -/

/-- The methods of a class one by one; likewise its fields. -/
@[simp]
theorem plainMethods_iff {methods : List FunctionDecl} : plainMethods methods ↔ ∀ m ∈ methods, m.isPlain := by
  induction methods with
  | nil => exact ⟨nofun, fun _ => rfl⟩
  | cons m methods ih => rw [plainMethods, Bool.and_eq_true, ih, List.forall_mem_cons]

@[simp]
theorem plainFields_iff {fields : List FieldDecl} : plainFields fields ↔ ∀ f ∈ fields, f.isPlain := by
  induction fields with
  | nil => exact ⟨nofun, fun _ => rfl⟩
  | cons f fields ih => rw [plainFields, Bool.and_eq_true, ih, List.forall_mem_cons]

end Pron
