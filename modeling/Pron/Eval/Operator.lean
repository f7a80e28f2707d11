import Pron.Eval.Error
import Pron.Store.Entries

/-!
# Operators

The operators on values. Integers are taken modulo `2 ^ 64`, division truncates toward zero. When one operand is a real
and the other an integer, the integer is taken as a real. Other values of one type can only be compared: truth values
and `null` by content, objects by identity.
-/

namespace Pron.Operator

/-- Operators between integers. -/
def integers (op : BinaryOp) (l r : Int64) : Except RuntimeError Datum :=
  match op with
  | .add => .ok (.object (.integer (l + r)))
  | .sub => .ok (.object (.integer (l - r)))
  | .mul => .ok (.object (.integer (l * r)))
  | .div => if r = 0 then .error (.divisionByZero .div l r) else .ok (.object (.integer (l / r)))
  | .mod => if r = 0 then .error (.divisionByZero .mod l r) else .ok (.object (.integer (l % r)))
  | .lt => .ok (.boolean (decide (l < r)))
  | .gt => .ok (.boolean (decide (r < l)))
  | .eq => .ok (.boolean (decide (l = r)))
  | .ne => .ok (.boolean (decide (l ≠ r)))
  | .assign => .error (.unknownBinary .assign .integer .integer)

/-- Operators between reals. -/
def reals (op : BinaryOp) (l r : Float) : Except RuntimeError Datum :=
  match op with
  | .add => .ok (.object (.real (l + r)))
  | .sub => .ok (.object (.real (l - r)))
  | .mul => .ok (.object (.real (l * r)))
  | .div => .ok (.object (.real (l / r)))
  | .mod => .ok (.object (.real (Double.remainder l r)))
  | .lt => .ok (.boolean (decide (l < r)))
  | .gt => .ok (.boolean (decide (r < l)))
  | .eq => .ok (.boolean (l == r))
  | .ne => .ok (.boolean (l != r))
  | .assign => .error (.unknownBinary .assign .real .real)

/-- Operators between texts. -/
def texts (op : BinaryOp) (l r : String) : Except RuntimeError Datum :=
  match op with
  | .add => .ok (.object (.text (l ++ r)))
  | .eq => .ok (.boolean (decide (l = r)))
  | .ne => .ok (.boolean (decide (l ≠ r)))
  | op => .error (.unknownBinary op .text .text)

/-- A number as a real. -/
def asReal? : Datum → Option Float
  | .object (.integer n) => some (Double.ofInt n.toInt)
  | .object (.real x) => some x
  | _ => none

/-- Operands that are neither two texts nor two numbers; they are of one type and are compared by identity. -/
def others (op : BinaryOp) (l r : Value) (type : DataType) : Except RuntimeError Datum :=
  match op with
  | .eq => .ok (.boolean (decide (l = r)))
  | .ne => .ok (.boolean (decide (l ≠ r)))
  | op => .error (.unknownBinary op type type)

/-- Operands that are neither two texts nor two integers. -/
def mixed (op : BinaryOp) (l r : Value) (a b : Datum) : Except RuntimeError Datum :=
  match asReal? a, asReal? b with
  | some x, some y => reals op x y
  | _, _ => if a.type = b.type then others op l r a.type else .error (.typeMismatch op a.type b.type)

/-- The result of an operator between two values. -/
def binary (s : Store) (op : BinaryOp) (l r : Value) : Except RuntimeError Datum :=
  match s.datum l, s.datum r with
  | .object (.text a), .object (.text b) => texts op a b
  | .object (.integer a), .object (.integer b) => integers op a b
  | a, b => mixed op l r a b

/-- The result of an operator before a value. -/
def unary (op : UnaryOp) (operand : Datum) : Except RuntimeError Datum :=
  match op, operand with
  | .not, d => .ok (.boolean (!d.isTruthy))
  | .negate, .object (.integer n) => .ok (.object (.integer (-n)))
  | .negate, .object (.real x) => .ok (.object (.real (-x)))
  | .negate, d => .error (.unknownUnary .negate d.type)

/-- The element of an array at a position, `null` outside of the array. -/
def element (elements : List Value) (i : Int64) : Value :=
  if 0 ≤ i then (elements[i.toInt.toNat]?).getD .null else .null

/-- What a container holds at an index. -/
def index (s : Store) (container index : Value) : Except RuntimeError Value :=
  match s.datum container, s.datum index with
  | .object (.array elements), .object (.integer i) => .ok (element elements i)
  | .object (.hash entries), d =>
    match d.keyContent? with
    | some content => .ok (((Entries.find? content entries).map HashEntry.value).getD .null)
    | none => .error (.unusableKey d.type)
  | d, _ => .error (.notIndexable d.type)

end Pron.Operator
