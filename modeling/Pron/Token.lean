/-!
# Tokens

A token is a kind, the literal text it stands for and the line on which it starts. Operators, delimiters and
keywords have a kind of their own; identifiers, numbers and strings are told apart by their literal. Two kinds are
not written by anybody: `illegal` marks text that no rule accepts, and `eof` marks the end of the source.
-/

namespace Pron

/-- The kinds of token. -/
inductive TokenKind
  | illegal | eof
  | ident | int | real | str
  | assign | plus | minus | bang | asterisk | slash | modulo | eq | notEq | increment | decrement | lt | gt
  | comma | semicolon | colon | dot | lparen | rparen | lbrace | rbrace | lbracket | rbracket
  | kwFunc | kwVar | kwTrue | kwFalse | kwIf | kwElse | kwElif | kwReturn | kwFor | kwFrom | kwTo | kwIn
  | kwClass | kwInit | kwThis | kwNew
  deriving DecidableEq, Inhabited, Repr

namespace TokenKind

/-- The name of a kind in messages and in listings of tokens. -/
def name : TokenKind → String
  | illegal => "ILLEGAL"
  | eof => "EOF"
  | ident => "IDENT"
  | int => "INT"
  | real => "REAL"
  | str => "STRING"
  | assign => "="
  | plus => "+"
  | minus => "-"
  | bang => "!"
  | asterisk => "*"
  | slash => "/"
  | modulo => "%"
  | eq => "=="
  | notEq => "!="
  | increment => "++"
  | decrement => "--"
  | lt => "<"
  | gt => ">"
  | comma => ","
  | semicolon => ";"
  | colon => ":"
  | dot => "."
  | lparen => "("
  | rparen => ")"
  | lbrace => "\x7b"
  | rbrace => "\x7d"
  | lbracket => "["
  | rbracket => "]"
  | kwFunc => "FUNCTION"
  | kwVar => "VAR"
  | kwTrue => "TRUE"
  | kwFalse => "FALSE"
  | kwIf => "IF"
  | kwElse => "ELSE"
  | kwElif => "ELIF"
  | kwReturn => "RETURN"
  | kwFor => "FOR"
  | kwFrom => "FROM"
  | kwTo => "TO"
  | kwIn => "IN"
  | kwClass => "CLASS"
  | kwInit => "INIT"
  | kwThis => "THIS"
  | kwNew => "NEW"

/-- The reserved words of the language. -/
def keywords : List (String × TokenKind) :=
  [("func", kwFunc), ("var", kwVar), ("true", kwTrue), ("false", kwFalse), ("if", kwIf), ("else", kwElse),
    ("elif", kwElif), ("return", kwReturn), ("for", kwFor), ("from", kwFrom), ("to", kwTo), ("in", kwIn),
    ("class", kwClass), ("Init", kwInit), ("this", kwThis), ("new", kwNew)]

/-- The kind of a word: that of the keyword it spells, else `ident`. -/
def ofWord (word : String) : TokenKind :=
  (keywords.lookup word).getD ident

end TokenKind

/-- A kind with its literal text and the line, counted from 1, on which it starts. -/
structure Token where
  kind : TokenKind
  literal : String
  line : Nat
  deriving DecidableEq, Inhabited, Repr

namespace Token

/-- The marker for the end of the source. -/
def endOfSource (line : Nat) : Token := ⟨.eof, "", line⟩

/-- One line of a listing of tokens: the kind, the literal and the line. -/
def render (t : Token) : String := s!"{t.kind.name} {t.literal} {t.line}"

end Token

end Pron
