import Pron.Store.Copy
import Pron.Syntax.Render
import Pron.Text.Quoted

/-!
# The text of a value

Values are shown as they would be written, functions by their canonical text, instances by the name of their class.
-/

namespace Pron

namespace Store

open Render

/-- The text of a value nested less deep than the bound. -/
def displayUpTo (s : Store) : Nat → Value → String
  | 0, _ => ""
  | n + 1, v =>
    match s.datum v with
    | .null => "null"
    | .boolean b => if b then "true" else "false"
    | .object o =>
      match o with
      | .integer k => Integer.text k
      | .real x => Double.text x
      | .text t => t
      | .array elements => "[" ++ commas (elements.map (displayUpTo s n)) ++ "]"
      | .hash entries =>
        braces (commas (entries.map fun e => displayUpTo s n e.key ++ ": " ++ displayUpTo s n e.value))
      | .function closure => closure.literal.render "func"
      | .builtin b => "builtin function " ++ b.name
      | .inst className _ => "<" ++ className ++ " instance>"
      | .init constructor _ => constructor.render

/-- The text of a value. -/
def display (s : Store) (v : Value) : String := s.displayUpTo (depthBound v) v

/-- The text of a value that also shows its type; texts are quoted. -/
def describe (s : Store) (v : Value) : String :=
  match s.datum v with
  | .object (.text t) => "Str(" ++ Text.quoted t ++ ")"
  | d => d.type.name ++ "(" ++ s.display v ++ ")"

/-- The text of a frame: the names it binds, in order, and whether there is a frame around it. -/
def describeFrame (s : Store) (E : FrameId) : String :=
  let names := (s.bindings E).names.mergeSort (fun x y => decide (x ≤ y))
  let enclosed := if s.isRoot E then "false" else "true"
  "Environment " ++ braces (" names: [" ++ commas (names.map Text.quoted) ++ "], has_enclosing: " ++ enclosed ++ " ")

end Store

end Pron
