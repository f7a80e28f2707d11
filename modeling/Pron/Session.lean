import Pron.Eval
import Pron.Store.Display

/-!
# Sessions

A session is a store with the frame in which its programs run, one after the other. A program is run even when errors
were found in its source: what could be read of it is evaluated.
-/

namespace Pron

/-- How an evaluation ended. -/
inductive Outcome
  | value (v : Value)
  | returned (v : Value)
  | failed (e : RuntimeError)
  | tooDeep

namespace Outcome

/-- Runs an evaluation on a store. -/
def of (action : Eval Value) (s : Store) : Outcome × Store :=
  match action s with
  | .ok v s => (value v, s)
  | .error (.returned v) s => (returned v, s)
  | .error (.failed e) s => (failed e, s)
  | .error .tooDeep s => (tooDeep, s)

end Outcome

/-- A store with the frame of its programs. -/
structure Session where
  store : Store
  frame : FrameId

namespace Session

/-- A session in which nothing is bound. -/
def start : Session :=
  let (frame, store) := Store.empty.newRoot
  { store, frame }

/-- How deep the evaluations of a program may be nested; a machine runs out of memory before. -/
def depth : Nat := 1000000000

/-- Runs a program. -/
def run (library : Library) (p : Program) (session : Session) : Outcome × Session :=
  let (outcome, store) := Outcome.of (Eval.program (Eval.expr library depth) p session.frame) session.store
  (outcome, { session with store })

/-- What was printed so far, and the session with nothing printed. -/
def takePrinted (session : Session) : String × Session :=
  (session.store.printed, { session with store := { session.store with printed := "" } })

end Session

end Pron
