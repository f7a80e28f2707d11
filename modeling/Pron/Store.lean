import Pron.Syntax

/-!
# The store

A running program works on objects and frames, which it reaches by reference. `null`, `true` and `false` are values by
themselves; every other value refers to an object of the store, and two values are the same when they refer to the same
object. A frame binds names to values and may have a parent; a function, a constructor and an instance refer to a frame.

Objects and frames are only ever added. Of the objects that are there, an integer can get another number and a hash can
lose entries; all else about an object is fixed when it is made. The store also holds what the program has printed and
which units it has asked for.
-/

namespace Pron

/-- A reference to an object; the references are given out in order. -/
structure ObjectId where
  index : Nat
  deriving DecidableEq, Inhabited, Repr

/-- A reference to a frame; the references are given out in order. -/
structure FrameId where
  index : Nat
  deriving DecidableEq, Inhabited, Repr

/-- Values. Equality of values is identity. -/
inductive Value
  | null
  | boolean (b : Bool)
  | ref (id : ObjectId)
  deriving DecidableEq, Inhabited, Repr

/-- The content of a key of a hash. Keys of different types are different. -/
inductive HashKey
  | integer (n : Int64)
  | boolean (b : Bool)
  | text (s : String)
  deriving DecidableEq, Repr

/-- An entry of a hash: the content of its key when it was entered, the value used as key, and the value it leads to. -/
structure HashEntry where
  content : HashKey
  key : Value
  value : Value
  deriving DecidableEq, Repr

/-- The functions that every program has without declaring them. -/
inductive Builtin
  | len | first | last | rest | add | remove | print
  deriving DecidableEq, Inhabited, Repr

namespace Builtin

/-- The name of a function. -/
def name : Builtin → String
  | len => "len"
  | first => "first"
  | last => "last"
  | rest => "rest"
  | add => "add"
  | remove => "remove"
  | print => "print"

/-- All of them, in the order in which they are looked up. -/
def all : List Builtin := [len, first, last, rest, add, remove, print]

/-- The function of a name, if there is one. -/
def ofName? (x : String) : Option Builtin := all.find? (·.name = x)

end Builtin

/-- A function with the frame in which it was made. -/
structure Closure where
  literal : FunctionLit
  frame : FrameId
  isPublic : Bool

/-- Objects. A class is an instance as well: the one from whose frame its other instances are copied. -/
inductive Object
  | integer (n : Int64)
  | real (x : Float)
  | text (s : String)
  | array (elements : List Value)
  | hash (entries : List HashEntry)
  | function (closure : Closure)
  | builtin (b : Builtin)
  | inst (className : String) (frame : FrameId)
  | init (constructor : Constructor) (frame : FrameId)

/-- Names with their values; no name occurs twice. -/
abbrev Bindings := List (String × Value)

/-- A frame: its bindings, and the frame around it. -/
structure Frame where
  parent : Option FrameId
  bindings : Bindings

/-- The state of a running program. -/
structure Store where
  objects : Array Object
  frames : Array Frame
  /-- All that was printed. -/
  printed : String
  /-- The units asked for, in order. -/
  requests : List String

/-- What a value is, with the object it refers to. -/
inductive Datum
  | null
  | boolean (b : Bool)
  | object (o : Object)

/-- The types of values. -/
inductive DataType
  | integer | real | text | boolean | null | array | hash | function | builtin | inst | init
  deriving DecidableEq, Inhabited, Repr

namespace DataType

/-- The name of a type in messages. -/
def name : DataType → String
  | integer => "INTEGER"
  | real => "REAL"
  | text => "STRING"
  | boolean => "BOOLEAN"
  | null => "NULL"
  | array => "ARRAY"
  | hash => "HASH"
  | function => "FUNCTION"
  | builtin => "BUILTIN"
  | inst => "CLASS_INSTANCE"
  | init => "INIT_FUNCTION"

end DataType

/-- The type of an object. -/
def Object.type : Object → DataType
  | integer _ => .integer
  | real _ => .real
  | text _ => .text
  | array _ => .array
  | hash _ => .hash
  | function _ => .function
  | builtin _ => .builtin
  | inst _ _ => .inst
  | init _ _ => .init

namespace Datum

/-- The type of a value. -/
def type : Datum → DataType
  | null => .null
  | boolean _ => .boolean
  | object o => o.type

/-- Everything but `false` and `null` is taken for true. -/
def isTruthy : Datum → Bool
  | null => false
  | boolean b => b
  | object _ => true

/-- The content with which a value serves as a key, if it can. -/
def keyContent? : Datum → Option HashKey
  | boolean b => some (.boolean b)
  | object (.integer n) => some (.integer n)
  | object (.text s) => some (.text s)
  | _ => none

end Datum

namespace Store

/-- The store in which nothing has happened. -/
def empty : Store := ⟨#[], #[], "", []⟩

instance : Inhabited Store := ⟨empty⟩

/-- What a value is. -/
def datum (s : Store) : Value → Datum
  | .null => .null
  | .boolean b => .boolean b
  | .ref id =>
    match s.objects[id.index]? with
    | some o => .object o
    | none => .null

/-- Adds an object. -/
def alloc (s : Store) (o : Object) : Value × Store :=
  (.ref ⟨s.objects.size⟩, { s with objects := s.objects.push o })

/-- Changes the content of an object. -/
def write (s : Store) (id : ObjectId) (o : Object) : Store :=
  { s with objects := s.objects.setIfInBounds id.index o }

/-- Adds a frame. -/
def newFrame (s : Store) (frame : Frame) : FrameId × Store :=
  (⟨s.frames.size⟩, { s with frames := s.frames.push frame })

/-- Adds to what was printed. -/
def print (s : Store) (text : String) : Store := { s with printed := s.printed ++ text }

/-- Notes that a unit was asked for. -/
def request (s : Store) (className : String) : Store := { s with requests := s.requests ++ [className] }

end Store

end Pron
