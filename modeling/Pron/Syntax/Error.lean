import Pron.Token
import Pron.Text.Quoted

/-!
# Syntax errors

A syntax error records what was wrong at one place of the source; reading goes on behind it.
-/

namespace Pron

/-- The causes of a syntax error. -/
inductive SyntaxError
  | expected (want got : TokenKind)
  | expectedEither (want orElse got : TokenKind)
  | noExpression (got : TokenKind)
  | badInteger (literal : String)
  | badReal (literal : String)
  | secondInit (className : String)
  | notAMember (got : TokenKind) (className : String)
  deriving DecidableEq, Repr

namespace SyntaxError

/-- The text of an error. -/
def message : SyntaxError → String
  | expected want got => s!"expected next token to be {want.name}, got {got.name} instead"
  | expectedEither want orElse got =>
    s!"expected next token to be {want.name} or {orElse.name}, got {got.name} instead"
  | noExpression got => s!"no prefix parse function for {got.name} found"
  | badInteger literal => s!"could not parse {Text.quoted literal} as integer"
  | badReal literal => s!"could not parse {Text.quoted literal} as real"
  | secondInit className => s!"class {className} declares Init more than once"
  | notAMember got className => s!"unexpected {got.name} in body of class {className}"

end SyntaxError

end Pron
