import Pron.Syntax.Error

/-!
# Reading steps

A reading step looks at the tokens from the current one on. It leaves a node, or none when the construct could not be
read, the errors it found, in order, and the tokens from its own last one on. A step that fails has moved as far as it
came; what follows in the same construct is skipped, and whoever asked for the construct decides how to go on.

A step bounds its recursion by a number of rounds. It has no reply when that number was too small.
-/

namespace Pron

/-- What a reading step leaves. -/
structure Reply (α : Type) where
  node : Option α
  errors : List SyntaxError
  rest : List Token

/-- A reading step from the current token on. -/
def Step (α : Type) : Type := List Token → Option (Reply α)

namespace Step

/-- A step that goes on with another one does so only when it left a node; the errors of both are kept in order. -/
instance : Monad Step where
  pure a := fun tokens => some ⟨some a, [], tokens⟩
  bind p next := fun tokens =>
    match p tokens with
    | none => none
    | some ⟨none, errors, rest⟩ => some ⟨none, errors, rest⟩
    | some ⟨some a, errors, rest⟩ =>
      match next a rest with
      | none => none
      | some reply => some { reply with errors := errors ++ reply.errors }

/-- The construct cannot be read. -/
def fail : Step α := fun tokens => some ⟨none, [], tokens⟩

/-- The bound on the number of rounds is reached. -/
def exhausted : Step α := fun _ => none

/-- Records an error. -/
def report (e : SyntaxError) : Step Unit := fun tokens => some ⟨some (), [e], tokens⟩

/-- Leaves a node in every case: none is an answer as well. -/
def attempt (p : Step α) : Step (Option α) := fun tokens =>
  (p tokens).map fun reply => { reply with node := some reply.node }

/-! ## The current token and the one after it -/

/-- The kind of the first token; behind the last one the source has ended. -/
def kindOf (tokens : List Token) : TokenKind :=
  match tokens with
  | t :: _ => t.kind
  | [] => .eof

/-- The kind of the current token. -/
def kind : Step TokenKind := fun tokens => some ⟨some (kindOf tokens), [], tokens⟩

/-- The kind of the token after the current one. -/
def peek : Step TokenKind := fun tokens => some ⟨some (kindOf tokens.tail), [], tokens⟩

/-- The literal of the current token. -/
def literal : Step String := fun tokens => some ⟨some ((tokens.head?.map Token.literal).getD ""), [], tokens⟩

/-- Moves to the next token. -/
def advance : Step Unit := fun tokens => some ⟨some (), [], tokens.tail⟩

/-- Moves to the next token if it has the kind, and is an error else. -/
def expect (want : TokenKind) : Step Unit := do
  let got ← peek
  if got = want then advance
  else
    report (.expected want got)
    fail

/-- Moves to an identifier. -/
def name : Step String := do
  expect .ident
  literal

/-- Moves to a semicolon if there is one. -/
def passSemicolon : Step Unit := do
  if (← peek) = .semicolon then advance

/-- The items of a list, as long as a comma follows; each item is read from the token before it. -/
def moreItems (item : Step α) : Nat → Step (List α)
  | 0 => exhausted
  | n + 1 => do
    if (← peek) = .comma then
      advance
      let first ← item
      let rest ← moreItems item n
      return first :: rest
    else return []

/-- Items with commas between them up to a closing token, which may also come at once. -/
def items (rounds : Nat) (close : TokenKind) (item : Step α) : Step (List α) := do
  if (← peek) = close then
    advance
    return []
  else
    let first ← item
    let rest ← moreItems item rounds
    expect close
    return first :: rest

end Step

end Pron
