import Pron.Eval.Outcome
import Pron.Store.Entries
import Pron.Store.Display

/-!
# Built-in functions

The built-in functions check their arguments before they do anything. `add` makes a new array or hash, `rest` and the
`remove` of an array make new arrays; the `remove` of a hash changes the hash itself.
-/

namespace Pron.Builtin

open Eval

/-- The elements of an argument that has to be an array. -/
def elementsOf (b : Builtin) (v : Value) : Eval (List Value) := do
  match ← datum v with
  | .object (.array elements) => return elements
  | d => fail (.arrayWanted b d.type)

/-- The number of elements or entries, or the number of bytes of a text in UTF-8. -/
def lenOf (v : Value) : Eval Value := do
  match ← datum v with
  | .object (.array elements) => alloc (.integer (.ofNat elements.length))
  | .object (.hash entries) => alloc (.integer (.ofNat entries.length))
  | .object (.text t) => alloc (.integer (.ofNat t.utf8ByteSize))
  | d => fail (.noLength d.type)

/-- The elements behind the first one; `null` for an empty array. -/
def restOf (elements : List Value) : Eval Value :=
  match elements with
  | [] => return .null
  | _ :: tail => alloc (.array tail)

/-- A container with one more element or entry. -/
def addTo (target : Value) (arguments : List Value) : Eval Value := do
  match ← datum target, arguments with
  | .object (.array elements), [v] => alloc (.array (elements ++ [v]))
  | .object (.array _), _ => fail (.wrongArguments (arguments.length + 1) 2)
  | .object (.hash entries), [k, v] =>
    let d ← datum k
    match d.keyContent? with
    | some content => alloc (.hash (Entries.insert ⟨content, k, v⟩ entries))
    | none => fail (.unusableKey d.type)
  | .object (.hash _), _ => fail (.wrongArguments (arguments.length + 1) 3)
  | d, _ => fail (.containerWanted .add d.type)

/-- An array without the element at a position. -/
def removeElement (elements : List Value) (position : Value) : Eval Value := do
  if elements.isEmpty then fail .emptyArray
  match ← datum position with
  | .object (.integer i) =>
    if 0 ≤ i ∧ i.toInt.toNat < elements.length then alloc (.array (elements.eraseIdx i.toInt.toNat))
    else fail .noSuchPosition
  | d => fail (.positionWanted d.type)

/-- Removes the entry of a key from the hash itself, which is the result. -/
def removeEntry (target : ObjectId) (entries : List HashEntry) (key : Value) : Eval Value := do
  if entries.isEmpty then fail .emptyHash
  let d ← datum key
  match d.keyContent? with
  | some content =>
    if (Entries.find? content entries).isSome then
      modify (·.write target (.hash (Entries.erase content entries)))
      return .ref target
    else fail .noSuchKey
  | none => fail (.unusableKey d.type)

/-- Removes an element or an entry from a container. -/
def removeFrom (target key : Value) : Eval Value := do
  match ← datum target, target with
  | .object (.array elements), _ => removeElement elements key
  | .object (.hash entries), .ref id => removeEntry id entries key
  | d, _ => fail (.containerWanted .remove d.type)

/-- Prints values, each on a line of its own. -/
def printAll (arguments : List Value) : Eval Value := do
  modify fun s => s.print (String.join (arguments.map fun v => s.display v ++ "\n"))
  return .null

/-- Calls a built-in function. -/
def call (b : Builtin) (arguments : List Value) : Eval Value := do
  match b, arguments with
  | .len, [v] => lenOf v
  | .first, [v] => return (← elementsOf .first v).head?.getD .null
  | .last, [v] => return (← elementsOf .last v).getLast?.getD .null
  | .rest, [v] => restOf (← elementsOf .rest v)
  | .add, target :: more => addTo target more
  | .remove, [target, key] => removeFrom target key
  | .print, _ => printAll arguments
  | .add, [] | .remove, _ => fail (.wrongArguments arguments.length 2)
  | .len, _ | .first, _ | .last, _ | .rest, _ => fail (.wrongArguments arguments.length 1)

end Pron.Builtin
