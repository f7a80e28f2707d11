import Pron.Token

/-!
# Scanning

The source is cut into pieces: gaps (white space and comments) and lexemes. The cut loses nothing, the texts of the
pieces put together are the source. The tokens are those of the lexemes, each with the line reached by the text before
it, followed by one `eof`.

Comments run from `//` to the end of the line, or from `/*` to the first `*/`; an unclosed block comment runs to the end
of the source. Strings run from a quote to the next one and have no escapes. A quote that is never closed, and any other
character that starts no lexeme, is an `illegal` lexeme, so every source has tokens.
-/

namespace Pron

/-- A stretch of source: layout, or the text of one token. -/
inductive Piece
  | gap (text : List Char)
  | lexeme (kind : TokenKind) (text : List Char)
  deriving DecidableEq, Repr

namespace Piece

/-- The source text of a piece. -/
def text : Piece → List Char
  | gap text => text
  | lexeme _ text => text

end Piece

namespace Scan

/-! ## Classes of characters -/

/-- Space, tab, carriage return and line feed. -/
def isBlank (c : Char) : Bool := c == ' ' || c == '\t' || c == '\r' || c == '\n'

/-- An ASCII letter or an underscore. -/
def startsWord (c : Char) : Bool := c.isAlpha || c == '_'

/-- An ASCII letter, an ASCII digit or an underscore. -/
def continuesWord (c : Char) : Bool := c.isAlphanum || c == '_'

/-! ## The first piece -/

/-- Splits after the first `*/`, or at the end when there is none. -/
def splitBlockComment : List Char → List Char × List Char
  | '*' :: '/' :: rest => (['*', '/'], rest)
  | c :: rest =>
    let (inside, after) := splitBlockComment rest
    (c :: inside, after)
  | [] => ([], [])

/-- The kind of a character that is a token by itself. -/
def singleKind : Char → Option TokenKind
  | '(' => some .lparen
  | ')' => some .rparen
  | '\x7b' => some .lbrace
  | '\x7d' => some .rbrace
  | '[' => some .lbracket
  | ']' => some .rbracket
  | ',' => some .comma
  | ';' => some .semicolon
  | ':' => some .colon
  | '.' => some .dot
  | '*' => some .asterisk
  | '%' => some .modulo
  | '+' => some .plus
  | '-' => some .minus
  | '!' => some .bang
  | '=' => some .assign
  | '<' => some .lt
  | '>' => some .gt
  | '/' => some .slash
  | _ => none

/-- The kind of two characters that make one operator. -/
def doubleKind : Char → Char → Option TokenKind
  | '+', '+' => some .increment
  | '-', '-' => some .decrement
  | '!', '=' => some .notEq
  | '=', '=' => some .eq
  | _, _ => none

/-- A number: digits, and a fraction when a point with a digit behind it follows. -/
def number (c : Char) (rest : List Char) : Piece × List Char :=
  let whole := c :: rest.takeWhile Char.isDigit
  match rest.dropWhile Char.isDigit with
  | '.' :: d :: after =>
    if d.isDigit then
      (.lexeme .real (whole ++ '.' :: d :: after.takeWhile Char.isDigit), after.dropWhile Char.isDigit)
    else (.lexeme .int whole, '.' :: d :: after)
  | after => (.lexeme .int whole, after)

/-- A string, from the character after the opening quote. -/
def string (rest : List Char) : Piece × List Char :=
  match rest.dropWhile (· != '"') with
  | _ :: after => (.lexeme .str ('"' :: rest.takeWhile (· != '"') ++ ['"']), after)
  | [] => (.lexeme .illegal ('"' :: rest), [])

/-- A word, an identifier or a keyword. -/
def word (c : Char) (rest : List Char) : Piece × List Char :=
  let text := c :: rest.takeWhile continuesWord
  (.lexeme (.ofWord (String.ofList text)) text, rest.dropWhile continuesWord)

/-- An operator, a delimiter, or a character that belongs nowhere. -/
def symbol (c : Char) (rest : List Char) : Piece × List Char :=
  match rest with
  | d :: after =>
    match doubleKind c d with
    | some kind => (.lexeme kind [c, d], after)
    | none => (.lexeme ((singleKind c).getD .illegal) [c], rest)
  | [] => (.lexeme ((singleKind c).getD .illegal) [c], [])

/-- The piece that starts with `c`, and the source behind it. -/
def firstPiece (c : Char) (rest : List Char) : Piece × List Char :=
  if isBlank c then
    (.gap (c :: rest.takeWhile isBlank), rest.dropWhile isBlank)
  else if c == '"' then string rest
  else if c.isDigit then number c rest
  else if startsWord c then word c rest
  else
    match c, rest with
    | '/', '/' :: after => (.gap ('/' :: '/' :: after.takeWhile (· != '\n')), after.dropWhile (· != '\n'))
    | '/', '*' :: after =>
      let (inside, behind) := splitBlockComment after
      (.gap ('/' :: '*' :: inside), behind)
    | _, _ => symbol c rest

/-! ## Nothing is lost -/

theorem splitBlockComment_append (cs : List Char) : (splitBlockComment cs).1 ++ (splitBlockComment cs).2 = cs := by
  fun_induction splitBlockComment cs <;> simp_all

/-- A number and what comes after it are the text from its first digit on; likewise for strings, words and symbols. -/
theorem number_append (c : Char) (rest : List Char) : (number c rest).1.text ++ (number c rest).2 = c :: rest := by
  have split := List.takeWhile_append_dropWhile (p := Char.isDigit) (l := rest)
  unfold number
  split
  next d after eq =>
    rw [eq] at split
    split <;> simp [Piece.text, split]
  next => simp [Piece.text, split]

theorem string_append (rest : List Char) : (string rest).1.text ++ (string rest).2 = '"' :: rest := by
  have split := List.takeWhile_append_dropWhile (p := (· != '"')) (l := rest)
  unfold string
  split
  next q after eq =>
    have isQuote : q = '"' := by
      have := List.head?_dropWhile_not (· != '"') rest
      rw [eq] at this
      simpa using this
    rw [eq, isQuote] at split
    simpa [Piece.text] using split
  next => simp [Piece.text]

theorem word_append (c : Char) (rest : List Char) : (word c rest).1.text ++ (word c rest).2 = c :: rest := by
  simp [word, Piece.text]

theorem symbol_append (c : Char) (rest : List Char) : (symbol c rest).1.text ++ (symbol c rest).2 = c :: rest := by
  unfold symbol
  split
  · split <;> simp [Piece.text]
  · simp [Piece.text]

/-- The first piece is a beginning of the source. -/
theorem firstPiece_append (c : Char) (rest : List Char) :
    (firstPiece c rest).1.text ++ (firstPiece c rest).2 = c :: rest := by
  unfold firstPiece
  split
  · simp [Piece.text]
  split
  next h => rw [string_append]; simp_all
  split
  · exact number_append c rest
  split
  · exact word_append c rest
  split
  · simp [Piece.text]
  · simp [Piece.text, splitBlockComment_append]
  · exact symbol_append c rest

/-- A piece has at least its first character. -/
theorem firstPiece_text_ne_nil (c : Char) (rest : List Char) : (firstPiece c rest).1.text ≠ [] := by
  unfold firstPiece string number word symbol
  repeat' split
  all_goals simp [Piece.text]

/-- What follows the first piece is shorter than the source. -/
theorem firstPiece_length (c : Char) (rest : List Char) : (firstPiece c rest).2.length < (c :: rest).length := by
  have := congrArg List.length (firstPiece_append c rest)
  have := List.length_pos_iff.mpr (firstPiece_text_ne_nil c rest)
  simp only [List.length_append] at *
  omega

/-! ## Pieces and tokens -/

/-- The pieces of a source, in order. -/
def pieces : List Char → List Piece
  | [] => []
  | c :: rest => (firstPiece c rest).1 :: pieces (firstPiece c rest).2
termination_by source => source.length
decreasing_by exact firstPiece_length c rest

/-- The texts of the pieces put together are the source. -/
theorem flatMap_text_pieces (source : List Char) : (pieces source).flatMap Piece.text = source := by
  fun_induction pieces source with
  | case1 => rfl
  | case2 c rest ih => rw [List.flatMap_cons, ih, firstPiece_append]

/-- The literal of a lexeme: its text, for a string what stands between the quotes. -/
def literal (kind : TokenKind) (text : List Char) : String :=
  if kind = .str then String.ofList (text.drop 1).dropLast else String.ofList text

/-- The number of line ends in a text. -/
def lineEnds (text : List Char) : Nat := text.count '\n'

/-- The tokens of pieces that start on the given line. -/
def tokensFrom (line : Nat) : List Piece → List Token
  | [] => [.endOfSource line]
  | .gap text :: rest => tokensFrom (line + lineEnds text) rest
  | .lexeme kind text :: rest => ⟨kind, literal kind text, line⟩ :: tokensFrom (line + lineEnds text) rest

end Scan

/-- The tokens of a source text; the last one, and no other, is `eof`. -/
def scan (source : String) : List Token :=
  Scan.tokensFrom 1 (Scan.pieces source.toList)

end Pron
