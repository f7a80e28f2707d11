import Pron.Proofs.Syntax.Grouping
import Pron.Proofs.Syntax.Lexed
import Pron.Syntax.Render

/-!
# The tokens of canonical texts

A canonical text is made of words, delimiters and single spaces. Each lemma takes one token off the front of such a
text. `Breaks cs` says that the text `cs` may come after an expression: it prolongs neither the last token of the
expression nor the expression's last operand. `Ends cs` says besides that no operator goes on with the expression.
-/

namespace Pron

open Scan Render
open Step (kindOf)

namespace Grammar

variable {rules : Rules} {k : TokenKind} {c d : Char} {x : String} {text cs : List Char} {xs ys zs : List Token}
  {line : Nat}

/-! ## Spaces -/

/-- A space in front of a token is skipped. -/
theorem Tok.spaced (h : Tok k (tokensAt line cs) ys) : Tok k (tokensAt line (' ' :: cs)) ys := by
  rwa [tokensAt_space]

theorem Lit.spaced (h : Lit k x (tokensAt line cs) ys) : Lit k x (tokensAt line (' ' :: cs)) ys := by
  rwa [tokensAt_space]

/-- A space in front of a phrase is skipped. -/
theorem Reads.spaced {phrase : Phrase} {tree : phrase.Tree} (h : Reads rules phrase (tokensAt line cs) tree ys) :
    Reads rules phrase (tokensAt line (' ' :: cs)) tree ys := by
  rwa [tokensAt_space]

/-! ## Single tokens -/

/-- The characters that separate tokens: none of them goes together with what is before it. -/
def separators : List Char := [' ', '(', ')', '\x7b', '\x7d', '[', ']', ',', ';', ':']

/-- A text that prolongs no word and no number. -/
def Separated (cs : List Char) : Prop := ∀ d ∈ cs.head?, d ∈ separators

/-- What begins with a separator prolongs nothing. -/
theorem Separated.cons (h : d ∈ separators) : Separated (d :: cs) := by
  rintro _ ⟨⟩
  exact h

/-- A class of characters without separators ends before one. -/
theorem Separated.stops {p : Char → Bool} (h : Separated cs) (hp : separators.all fun d => !p d) : Scan.Stops p cs := by
  intro d hd
  have := List.all_eq_true.1 hp d (h d hd)
  rwa [Bool.not_eq_true'] at this

theorem stops_word (h : Separated cs) : Scan.Stops continuesWord cs := h.stops rfl

theorem stops_number (h : Separated cs) : Scan.Stops (fun d => d.isDigit || d == '.') cs := h.stops rfl

theorem stops_digits (h : Separated cs) : Scan.Stops Char.isDigit cs := h.stops rfl

/-- A separator makes no operator together with the character before it. -/
theorem Separated.ne (h : Separated cs) : ∀ d ∈ cs.head?, d ≠ '-' ∧ d ≠ '=' := by
  intro d hd
  have hseparators : separators.all fun d => d != '-' && d != '=' := rfl
  have := List.all_eq_true.1 hseparators d (h d hd)
  rwa [Bool.and_eq_true, bne_iff_ne, bne_iff_ne] at this

/-- The kinds of the characters that are a token whatever comes after them. -/
def standsAlone : TokenKind → Bool
  | .comma | .semicolon | .colon | .dot | .lparen | .rparen | .lbrace | .rbrace | .lbracket | .rbracket => true
  | _ => false

/-- Only four characters start an operator of two. -/
theorem doubleKind_eq_none (hc : c ∉ ['+', '-', '!', '=']) : doubleKind c d = none := by
  unfold doubleKind
  split
  case h_5 => rfl
  all_goals exact absurd (by decide) hc

/-- A delimiter is a token whatever comes after it. -/
theorem tokensAt_delimiter (hk : singleKind c = some k) (halone : standsAlone k) :
    tokensAt line (c :: cs) = ⟨k, String.ofList [c], line⟩ :: tokensAt line cs := by
  refine tokensAt_symbol hk fun d _ => ?_
  unfold singleKind at hk
  split at hk
  case h_20 => cases hk
  all_goals
    cases hk
    first
    | exact ⟨doubleKind_eq_none (by decide), fun h => absurd h (by decide)⟩
    | cases halone

theorem tok_delimiter (hk : singleKind c = some k) (halone : standsAlone k) :
    Tok k (tokensAt line (c :: cs)) (tokensAt line cs) :=
  ⟨_, line, tokensAt_delimiter hk halone⟩

/-- An operator of one character with a space behind it. -/
theorem tok_operator (hk : singleKind c = some k) :
    Tok k (tokensAt line (c :: ' ' :: cs)) (tokensAt line (' ' :: cs)) := by
  refine ⟨_, line, tokensAt_symbol hk ?_⟩
  rintro _ ⟨⟩
  refine ⟨?_, fun _ => ⟨nofun, nofun⟩⟩
  unfold doubleKind
  split
  case h_5 => rfl
  all_goals contradiction

/-- A name is an identifier with its text. -/
theorem lit_name (hx : IsName x) (hcs : Scan.Stops continuesWord cs) :
    Lit .ident x (tokensAt line (x.toList ++ cs)) (tokensAt line cs) := by
  obtain ⟨hword, c, text, htext, hc, hcontinues⟩ := hx
  refine ⟨line, ?_⟩
  rw [htext, tokensAt_word hc hcontinues hcs, ← htext, String.ofList_toList, hword]

/-- A keyword is no identifier. -/
theorem tok_keyword {w : String} (hw : (w, k) ∈ TokenKind.keywords) (hcs : Scan.Stops continuesWord cs) :
    Tok k (tokensAt line (w.toList ++ cs)) (tokensAt line cs) := by
  have hwords : ∀ p ∈ TokenKind.keywords, p.1.toList.head?.any startsWord ∧ p.1.toList.tail.all continuesWord ∧
      TokenKind.ofWord p.1 = p.2 := by
    decide
  obtain ⟨hstarts, hcontinues, hk⟩ := hwords _ hw
  dsimp only at hstarts hcontinues hk
  refine ⟨w, line, ?_⟩
  cases htext : w.toList with
  | nil =>
    rw [htext] at hstarts
    cases hstarts
  | cons c text =>
    rw [htext] at hstarts hcontinues
    have hcontinues : ∀ d ∈ text, continuesWord d := List.all_eq_true.1 hcontinues
    rw [tokensAt_word hstarts hcontinues hcs, ← htext, String.ofList_toList, hk]

/-! ## What comes after an expression -/

/-- What may come after an expression. -/
structure Breaks (cs : List Char) : Prop where
  separated : Separated cs
  follows (line : Nat) : followsOperand (kindOf (tokensAt line cs))

/-- What may come after an expression that nothing continues. -/
structure Ends (cs : List Char) : Prop extends Breaks cs where
  ends (line : Nat) : Continuation.ofKind? (kindOf (tokensAt line cs)) = none

/-- What ends an expression does so at every level. -/
theorem Ends.stops (h : Ends cs) (p : Precedence) (line : Nat) : Stops p (tokensAt line cs) := by
  intro c hc
  rw [h.ends] at hc
  cases hc

/-- The end of the text ends every expression. -/
theorem ends_nil : Ends [] where
  separated := nofun
  follows line := by
    rw [tokensAt_nil]
    rfl
  ends line := by
    rw [tokensAt_nil]
    rfl

/-- A delimiter may come after an expression as its kind says. -/
theorem breaks_delimiter (hc : c ∈ separators) (hk : singleKind c = some k) (halone : standsAlone k)
    (hfollows : followsOperand k) : Breaks (c :: cs) where
  separated := .cons hc
  follows line := by
    rw [(tok_delimiter hk halone).kindOf_eq]
    exact hfollows

/-- A delimiter ends an expression as its kind says. -/
theorem ends_delimiter (hc : c ∈ separators) (hk : singleKind c = some k) (halone : standsAlone k)
    (hends : endsExpression k) : Ends (c :: cs) where
  toBreaks := breaks_delimiter hc hk halone (follows_of_ends hends)
  ends line := by
    rw [(tok_delimiter hk halone).kindOf_eq]
    exact ofKind?_of_ends hends

/-- After an operand a parenthesis opens the arguments of a call, so it breaks but does not end. -/
theorem breaks_lparen (cs : List Char) : Breaks ('(' :: cs) := breaks_delimiter (by decide) rfl rfl rfl

theorem breaks_lbracket (cs : List Char) : Breaks ('[' :: cs) := breaks_delimiter (by decide) rfl rfl rfl

theorem ends_rparen (cs : List Char) : Ends (')' :: cs) := ends_delimiter (by decide) rfl rfl rfl

theorem ends_rbracket (cs : List Char) : Ends (']' :: cs) := ends_delimiter (by decide) rfl rfl rfl

theorem ends_rbrace (cs : List Char) : Ends ('\x7d' :: cs) := ends_delimiter (by decide) rfl rfl rfl

theorem ends_comma (cs : List Char) : Ends (',' :: cs) := ends_delimiter (by decide) rfl rfl rfl

theorem ends_colon (cs : List Char) : Ends (':' :: cs) := ends_delimiter (by decide) rfl rfl rfl

theorem ends_semicolon (cs : List Char) : Ends (';' :: cs) := ends_delimiter (by decide) rfl rfl rfl

/-- Between the bounds of a loop a keyword ends the first one. -/
theorem ends_to (cs : List Char) : Ends (' ' :: 't' :: 'o' :: ' ' :: cs) := by
  have hto (line : Nat) : kindOf (tokensAt line (' ' :: 't' :: 'o' :: ' ' :: cs)) = .kwTo :=
    (tok_keyword (w := "to") (by decide) (.cons rfl)).spaced.kindOf_eq
  exact {
    separated := .cons (by decide)
    follows := fun line => by
      rw [hto]
      rfl
    ends := fun line => by
      rw [hto]
      rfl }

/-! ## Operators -/

/-- The operator before an operand is one token, for no operator is written with two characters of which this is the
first. -/
theorem unary_symbol (op : UnaryOp) : ∃ c k, op.symbol.toList = [c] ∧ unary? k = some op ∧
    ∀ (line : Nat) {cs : List Char}, (∀ d ∈ cs.head?, d ≠ '-' ∧ d ≠ '=') →
      Tok k (tokensAt line (c :: cs)) (tokensAt line cs) := by
  have hnone {c d : Char} (hc : c = '-' ∨ c = '!') (hd : d ≠ '-' ∧ d ≠ '=') : doubleKind c d = none := by
    unfold doubleKind
    split
    case h_5 => rfl
    case h_1 | h_4 => simp at hc
    case h_2 => exact absurd rfl hd.1
    case h_3 => exact absurd rfl hd.2
  cases op with
  | not =>
    refine ⟨'!', .bang, rfl, rfl, fun line cs hcs => ⟨_, line, tokensAt_symbol rfl fun d hd => ?_⟩⟩
    exact ⟨hnone (.inr rfl) (hcs d hd), nofun⟩
  | negate =>
    refine ⟨'-', .minus, rfl, rfl, fun line cs hcs => ⟨_, line, tokensAt_symbol rfl fun d hd => ?_⟩⟩
    exact ⟨hnone (.inl rfl) (hcs d hd), nofun⟩

/-- The operator between operands is one token, with spaces around it. -/
theorem binary_symbol (op : BinaryOp) (cs : List Char) : ∃ k, binary? k = some op ∧
    (∀ line, Tok k (tokensAt line (op.symbol.toList ++ ' ' :: cs)) (tokensAt line cs)) ∧
    Breaks (' ' :: (op.symbol.toList ++ ' ' :: cs)) := by
  have htok : ∃ k, binary? k = some op ∧
      ∀ line, Tok k (tokensAt line (op.symbol.toList ++ ' ' :: cs)) (tokensAt line (' ' :: cs)) := by
    cases op with
    | eq => exact ⟨.eq, rfl, fun line => ⟨_, line, tokensAt_operator rfl⟩⟩
    | ne => exact ⟨.notEq, rfl, fun line => ⟨_, line, tokensAt_operator rfl⟩⟩
    | assign => exact ⟨.assign, rfl, fun line => tok_operator rfl⟩
    | add => exact ⟨.plus, rfl, fun line => tok_operator rfl⟩
    | sub => exact ⟨.minus, rfl, fun line => tok_operator rfl⟩
    | mul => exact ⟨.asterisk, rfl, fun line => tok_operator rfl⟩
    | div => exact ⟨.slash, rfl, fun line => tok_operator rfl⟩
    | mod => exact ⟨.modulo, rfl, fun line => tok_operator rfl⟩
    | lt => exact ⟨.lt, rfl, fun line => tok_operator rfl⟩
    | gt => exact ⟨.gt, rfl, fun line => tok_operator rfl⟩
  obtain ⟨k, hop, htok⟩ := htok
  simp only [tokensAt_space] at htok
  refine ⟨k, hop, htok, .cons (by decide), fun line => ?_⟩
  rw [tokensAt_space, (htok line).kindOf_eq]
  cases k <;> first | rfl | cases hop

end Grammar

end Pron
