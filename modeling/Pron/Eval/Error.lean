import Pron.Store
import Pron.Syntax.Render

/-!
# Runtime errors

A runtime error ends the program. There is one cause for each way in which an operation can fail.
-/

namespace Pron

/-- The bound of a counting loop that was wrong. -/
inductive LoopBound
  | start | stop
  deriving DecidableEq, Repr

/-- The causes of a runtime error. -/
inductive RuntimeError
  | notFound (x : String)
  | notFoundThis (x : String)
  | notDefined (x : String)
  | notDefinedThis (x : String)
  | notAssignable (target : Expr)
  | unknownUnary (op : UnaryOp) (operand : DataType)
  | unknownStep (operand : DataType) (up : Bool)
  | unknownBinary (op : BinaryOp) (left right : DataType)
  | typeMismatch (op : BinaryOp) (left right : DataType)
  | divisionByZero (op : BinaryOp) (left right : Int64)
  | notIndexable (container : DataType)
  | unusableKey (key : DataType)
  | notCallable (f : DataType)
  | wrongArguments (got want : Nat)
  | loopBound (bound : LoopBound) (got : DataType)
  | notLoopable (got : DataType)
  | noClass (className : String)
  | notAClass (x : String)
  | noArgumentsExpected (className : String) (got : Nat)
  | notAConstructor (className : String)
  | notAField (x className : String)
  | notAnObject (x : String) (got : DataType)
  | noMethod (x : String)
  | notAMethod (x : String) (got : DataType)
  | notPublic (method object : String)
  | noLength (got : DataType)
  | arrayWanted (b : Builtin) (got : DataType)
  | containerWanted (b : Builtin) (got : DataType)
  | emptyArray
  | positionWanted (got : DataType)
  | noSuchPosition
  | emptyHash
  | noSuchKey

namespace RuntimeError

/-- The text of an error. -/
def message : RuntimeError → String
  | notFound x => s!"identifier not found: {x}"
  | notFoundThis x => s!"identifier not found: '{x}'. Try to remove 'this.'"
  | notDefined x => s!"{x} is not defined"
  | notDefinedThis x => s!"{x} is not defined. Try to remove 'this.'"
  | notAssignable target => s!"left side of assignment is not an identifier. got={target.render}"
  | unknownUnary op operand => s!"unknown operator: {op.symbol}{operand.name}"
  | unknownStep operand up => s!"unknown operator: {operand.name}" ++ (if up then "++" else "--")
  | unknownBinary op left right => s!"unknown operator: {left.name} {op.symbol} {right.name}"
  | typeMismatch op left right => s!"type mismatch: {left.name} {op.symbol} {right.name}"
  | divisionByZero op left right => s!"division by zero: {Integer.text left} {op.symbol} {Integer.text right}"
  | notIndexable container => s!"index operator not supported: {container.name}"
  | unusableKey key => s!"unusable as hash key: {key.name}"
  | notCallable f => s!"not a function: {f.name}"
  | wrongArguments got want => s!"wrong number of arguments. got={got}, want={want}"
  | loopBound .start got => s!"'from' expression in forloop was not integer. got={got.name}"
  | loopBound .stop got => s!"'to' expression in forloop was not integer. got={got.name}"
  | notLoopable got => s!"'in' target of forloop was not ARRAY. got={got.name}"
  | noClass className => s!"There is no Class called: {className}"
  | notAClass x => s!"{x} is not a class"
  | noArgumentsExpected className got => s!"Number of arguments in {className} should be 0. got {got}"
  | notAConstructor className => s!"Init of {className} is not a constructor"
  | notAField x className => s!"{x} is not a field of {className}"
  | notAnObject x got => s!"{x} is not an object. got={got.name}"
  | noMethod x => s!"{x} is not a defined method"
  | notAMethod x got => s!"{x} is not a defined method. got={got.name}"
  | notPublic method object => s!"{method} is not a public function in {object}"
  | noLength got => s!"argument to `len` not supported, got {got.name}"
  | arrayWanted b got => s!"argument to `{b.name}` must be ARRAY, got {got.name}"
  | containerWanted b got => s!"argument to `{b.name}` must be ARRAY or HASH, got {got.name}"
  | emptyArray => "length of array must be greater than 0"
  | positionWanted got => s!"index parameter must be INTEGER, got {got.name}"
  | noSuchPosition => "index parameter must be between 0 and length of arr - 1"
  | emptyHash => "cannot remove from empty hash"
  | noSuchKey => "key not found in hash"

end RuntimeError

end Pron
