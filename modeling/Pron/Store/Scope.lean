import Pron.Store

/-!
# Scopes

The scope of a frame is the chain of the frame, its parent, and so on up to a frame without a parent, its root. A parent
is made before its child, so the number of a frame bounds the length of its chain. Names are looked up and changed in
the nearest frame of the chain that binds them, names behind `this.` in the root only. All of these go through `chain`.
-/

namespace Pron

namespace Bindings

/-- Binds a name, instead of an earlier binding of it. -/
def insert (x : String) (v : Value) : Bindings → Bindings
  | [] => [(x, v)]
  | (y, w) :: rest => if x = y then (x, v) :: rest else (y, w) :: insert x v rest

/-- The names that are bound. -/
def names (bindings : Bindings) : List String := bindings.map Prod.fst

@[simp]
theorem lookup_insert_self (x : String) (v : Value) (bindings : Bindings) :
    (insert x v bindings).lookup x = some v := by
  induction bindings with
  | nil => simp [insert]
  | cons b rest ih => grind [insert]

/-- Other names are bound as before. -/
theorem lookup_insert_of_ne {x y : String} (h : y ≠ x) (v : Value) (bindings : Bindings) :
    (insert x v bindings).lookup y = bindings.lookup y := by
  induction bindings with
  | nil => simp [insert, h]
  | cons b rest ih => grind [insert]

end Bindings

namespace Frame

/-- The value of a name in this frame. -/
def get? (f : Frame) (x : String) : Option Value := f.bindings.lookup x

/-- Binds a name in this frame. -/
def bind (f : Frame) (x : String) (v : Value) : Frame := { f with bindings := Bindings.insert x v f.bindings }

end Frame

namespace Store

/-- The bindings of a frame. -/
def bindings (s : Store) (E : FrameId) : Bindings := (s.frames[E.index]?.map Frame.bindings).getD []

/-- The frame around a frame. -/
def parent? (s : Store) (E : FrameId) : Option FrameId := s.frames[E.index]?.bind Frame.parent

/-- The value of a name in one frame. -/
def localValue? (s : Store) (E : FrameId) (x : String) : Option Value := s.frames[E.index]?.bind (·.get? x)

/-- A frame and the frames around it, nearest first, after at most the given number of steps. -/
def chainUpTo (s : Store) : Nat → FrameId → List FrameId
  | 0, E => [E]
  | n + 1, E =>
    match s.parent? E with
    | some P => E :: chainUpTo s n P
    | none => [E]

/-- A frame and the frames around it, nearest first. -/
def chain (s : Store) (E : FrameId) : List FrameId := s.chainUpTo E.index E

/-- The outermost frame around a frame. -/
def root (s : Store) (E : FrameId) : FrameId := (s.chain E).getLastD E

/-- Whether nothing is around a frame. -/
def isRoot (s : Store) (E : FrameId) : Bool := (s.parent? E).isNone

/-- The nearest frame that binds a name. -/
def binder? (s : Store) (E : FrameId) (x : String) : Option FrameId :=
  (s.chain E).find? fun F => (s.localValue? F x).isSome

/-- The value of a name. -/
def get? (s : Store) (E : FrameId) (x : String) : Option Value := (s.binder? E x).bind (s.localValue? · x)

/-- The value of a name in the root. -/
def rootValue? (s : Store) (E : FrameId) (x : String) : Option Value := s.localValue? (s.root E) x

/-- Binds a name in one frame. -/
def set (s : Store) (E : FrameId) (x : String) (v : Value) : Store :=
  { s with frames := s.frames.modify E.index (·.bind x v) }

/-- Changes a name in the nearest frame that binds it, if there is one. -/
def update? (s : Store) (E : FrameId) (x : String) (v : Value) : Option Store :=
  (s.binder? E x).map fun F => s.set F x v

/-- Changes a name in the root, if it is bound there. -/
def updateRoot? (s : Store) (E : FrameId) (x : String) (v : Value) : Option Store :=
  if (s.rootValue? E x).isSome then some (s.set (s.root E) x v) else none

/-- Adds a frame around which there is nothing. -/
def newRoot (s : Store) : FrameId × Store := s.newFrame ⟨none, []⟩

/-- Adds a frame inside another. -/
def newChild (s : Store) (E : FrameId) : FrameId × Store := s.newFrame ⟨some E, []⟩

end Store

end Pron
