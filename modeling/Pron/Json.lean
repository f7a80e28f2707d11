import Pron.Double.Text
import Pron.Integer

/-!
# JSON

Values of JSON with the fields of objects in order, and their text with two spaces of indentation a level. Numbers are
the integers and the reals of the language; a real that is not finite is written as `null`.
-/

namespace Pron

/-- Values of JSON. -/
inductive Json
  | null
  | boolean (b : Bool)
  | integer (n : Int64)
  | real (x : Float)
  | text (s : String)
  | array (items : List Json)
  | object (fields : List (String × Json))

namespace Json

/-- A character inside a string of JSON. -/
def escapeChar (c : Char) : List Char :=
  match c with
  | '"' => ['\\', '"']
  | '\\' => ['\\', '\\']
  | '\x08' => ['\\', 'b']
  | '\t' => ['\\', 't']
  | '\n' => ['\\', 'n']
  | '\x0c' => ['\\', 'f']
  | '\r' => ['\\', 'r']
  | c =>
    if c.toNat < 0x20 then
      let digits := Nat.toDigits 16 c.toNat
      ['\\', 'u'] ++ List.replicate (4 - digits.length) '0' ++ digits
    else [c]

/-- A string of JSON. -/
def quoted (s : String) : String := String.ofList ('"' :: s.toList.flatMap escapeChar ++ ['"'])

/-- A line end with the indentation behind it. -/
def newLine (indent : Nat) : String := "\n" ++ String.ofList (List.replicate (2 * indent) ' ')

mutual

/-- The text of a value inside the given number of levels. -/
def prettyIn (indent : Nat) : Json → String
  | .null => "null"
  | .boolean b => if b then "true" else "false"
  | .integer n => Integer.text n
  | .real x => Double.jsonText x
  | .text s => quoted s
  | .array [] => "[]"
  | .array (first :: rest) =>
    "[" ++ newLine (indent + 1) ++ prettyIn (indent + 1) first ++ prettyItems (indent + 1) rest ++ newLine indent ++ "]"
  | .object [] => "\x7b\x7d"
  | .object ((name, value) :: rest) =>
    "\x7b" ++ newLine (indent + 1) ++ quoted name ++ ": " ++ prettyIn (indent + 1) value
      ++ prettyFields (indent + 1) rest ++ newLine indent ++ "\x7d"

/-- Further items of an array. -/
def prettyItems (indent : Nat) : List Json → String
  | [] => ""
  | item :: rest => "," ++ newLine indent ++ prettyIn indent item ++ prettyItems indent rest

/-- Further fields of an object. -/
def prettyFields (indent : Nat) : List (String × Json) → String
  | [] => ""
  | (name, value) :: rest =>
    "," ++ newLine indent ++ quoted name ++ ": " ++ prettyIn indent value ++ prettyFields indent rest

end

/-- The text of a value. -/
def pretty (j : Json) : String := prettyIn 0 j

end Json

end Pron
