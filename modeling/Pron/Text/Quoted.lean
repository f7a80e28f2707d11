import Pron.Text.Printable

/-!
# Quoted text

A text is shown between double quotes. Quotes, backslashes and the usual controls are escaped with a backslash, any
other character that is not printable by its code point. The name of a file is shown in the same way, but there an
apostrophe is escaped too.
-/

namespace Pron.Text

/-- The escape of a character by its code point. -/
def codePointEscape (c : Char) : List Char := ['\\', 'u', '\x7b'] ++ Nat.toDigits 16 c.toNat ++ ['\x7d']

/-- A character as it is shown between quotes. -/
def escapeChar (c : Char) : List Char :=
  match c with
  | '\x00' => ['\\', '0']
  | '\t' => ['\\', 't']
  | '\n' => ['\\', 'n']
  | '\r' => ['\\', 'r']
  | '"' => ['\\', '"']
  | '\\' => ['\\', '\\']
  | c => if isPrintable c then [c] else codePointEscape c

/-- A text between quotes. -/
def quoted (s : String) : String :=
  String.ofList ('"' :: s.toList.flatMap escapeChar ++ ['"'])

/-- The name of a file between quotes. -/
def quotedPath (path : String) : String :=
  String.ofList ('"' :: path.toList.flatMap (fun c => if c = '\'' then ['\\', '\''] else escapeChar c) ++ ['"'])

end Pron.Text
