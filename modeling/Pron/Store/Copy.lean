import Pron.Store.Scope

/-!
# Copies of frames

An instance starts with its own copy of the frame of its class. Integers, arrays and hashes are copied as deep as they
are nested, so that no storage is shared; all other values stay the same objects. The functions of the class itself then
become functions of the instance: copies that work in its frame.

The elements of an array or a hash are made before it, so the number of an object bounds how deep it is nested.
-/

namespace Pron

/-- Actions on the store that always succeed. -/
abbrev StoreM := StateM Store

namespace Store

/-- Adds an object. -/
def allocM (o : Object) : StoreM Value := modifyGet (·.alloc o)

/-- A bound on how deep a value is nested: an object holds objects with smaller numbers, and values that are no objects
count one level more. -/
def depthBound : Value → Nat
  | .ref id => id.index + 2
  | _ => 1

/-- A copy of a value nested less deep than the bound. -/
def copyUpTo : Nat → Value → StoreM Value
  | 0, v => return v
  | n + 1, v => do
    match (← get).datum v with
    | .object (.integer k) => allocM (.integer k)
    | .object (.array elements) => allocM (.array (← elements.mapM (copyUpTo n)))
    | .object (.hash entries) =>
      let copies ← entries.mapM fun e => do
        return { e with key := ← copyUpTo n e.key, value := ← copyUpTo n e.value }
      allocM (.hash copies)
    | _ => return v

/-- A copy of a value: new storage for integers, arrays and hashes, the same object otherwise. -/
def copyValue (v : Value) : StoreM Value := copyUpTo (depthBound v) v

/-- Copies the bindings of a frame into a new frame without a parent. -/
def copyFrame (T : FrameId) : StoreM FrameId := do
  let copies ← ((← get).bindings T).mapM fun (x, v) => do return (x, ← copyValue v)
  modifyGet (·.newFrame ⟨none, copies⟩)

/-- The functions among some bindings that were made in a frame. -/
def functionsOf (s : Store) (T : FrameId) (bindings : Bindings) : List (String × Closure) :=
  bindings.filterMap fun (x, v) =>
    match s.datum v with
    | .object (.function closure) => if closure.frame = T then some (x, closure) else none
    | _ => none

/-- The frame of a new instance, from the frame of its class. -/
def instanceFrame (T : FrameId) : StoreM FrameId := do
  let I ← copyFrame T
  let s ← get
  (s.functionsOf T (s.bindings I)).forM fun (x, closure) => do
    let method ← allocM (.function { closure with frame := I })
    modify (·.set I x method)
  return I

end Store

end Pron
