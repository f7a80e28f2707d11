import Pron.Text.Utf8

/-!
# Units

A class that a program does not define can be found in a unit, a source text known by the name of the class.
-/

namespace Pron

/-- Why a unit cannot be had. -/
inductive UnitError
  | noUnit (className : String)
  | notText (e : Text.Utf8Error)
  deriving DecidableEq, Repr

namespace UnitError

/-- The text of an error. -/
def message : UnitError → String
  | noUnit className => s!"There is no Class called: {className}"
  | notText e => e.message

end UnitError

/-- Finds the source of the unit for a class. -/
abbrev Library := String → Except UnitError String

namespace Library

/-- The units of a list. -/
def ofUnits (units : List (String × String)) : Library := fun className =>
  match units.lookup className with
  | some source => .ok source
  | none => .error (.noUnit className)

end Library

end Pron
