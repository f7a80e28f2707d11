import Pron.Eval.Error
import Pron.Store.Copy

/-!
# Outcomes

An evaluation works on the store and ends with a result, or stops early: at a `return`, which travels to the end of the
function it belongs to, at a runtime error, which travels to the end of the program, or because the evaluation is
nested deeper than it was allowed to be.
-/

namespace Pron

/-- Why an evaluation stopped early. -/
inductive Stop
  | returned (v : Value)
  | failed (e : RuntimeError)
  | tooDeep

/-- Evaluations that end with an `α`. Whatever the outcome, the changes made to the store up to it stay. -/
abbrev Eval (α : Type) : Type := EStateM Stop Store α

namespace Eval

/-- Ends the program with an error. -/
def fail (e : RuntimeError) : Eval α := throw (.failed e)

/-- The result, or the error, of a part that does not change the store. -/
def ofExcept : Except RuntimeError α → Eval α
  | .ok a => return a
  | .error e => fail e

/-- An action on the store. -/
def ofStore (action : StoreM α) : Eval α := modifyGet action.run

/-- What a value is. -/
def datum (v : Value) : Eval Datum := return (← get).datum v

/-- Adds an object. -/
def alloc (o : Object) : Eval Value := modifyGet (·.alloc o)

/-- A value that is such a datum; objects are new ones. -/
def give : Datum → Eval Value
  | .null => return .null
  | .boolean b => return .boolean b
  | .object o => alloc o

/-- Takes a `return` for the result. -/
def catchReturn (action : Eval Value) : Eval Value := fun s =>
  match action s with
  | .error (.returned v) s => .ok v s
  | outcome => outcome

end Eval

end Pron
