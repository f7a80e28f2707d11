import Pron.Proofs.Syntax.Words
import Pron.Proofs.Token.Lexeme

/-!
# What scanned words look like

The words of a scanned source have the form of what they stand for: a name is a word and no keyword, an integer is made
of digits, a real has digits on both sides of its point, and a string has no quote inside (`scan_lexed`).
-/

namespace Pron

open Scan

/-- An identifier that is no keyword. -/
def IsName (x : String) : Prop :=
  TokenKind.ofWord x = .ident ∧ ∃ c text, x.toList = c :: text ∧ startsWord c ∧ ∀ d ∈ text, continuesWord d

/-- The form of a word. -/
def Word.Lexed : Word → Prop
  | .name x => IsName x
  | .integer x => IsDigits x.toList
  | .real x => IsDecimal x.toList
  | .text s => '"' ∉ s.toList
  | .truth _ | .operator _ => True

namespace Scan

variable {c d : Char} {k : TokenKind} {text after rest : List Char} {line : Nat} {w : Word}

theorem isDigits_cons (hc : c.isDigit) : IsDigits (c :: rest.takeWhile Char.isDigit) := by
  refine ⟨nofun, List.forall_mem_cons.2 ⟨hc, fun d hd => ?_⟩⟩
  exact List.all_eq_true.1 List.all_takeWhile d hd

/-- A number is made of digits, with a point between digits or without one. -/
theorem number_lexed (hc : c.isDigit) (h : number c rest = (.lexeme k text, after))
    (hw : (Token.mk k (literal k text) line).word? = some w) : w.Lexed := by
  unfold number at h
  split at h
  · next d behind _ =>
    split at h
    · next hd =>
      cases h
      cases hw
      refine ⟨c :: rest.takeWhile Char.isDigit, d :: behind.takeWhile Char.isDigit, ?_, isDigits_cons hc,
        isDigits_cons hd⟩
      exact String.toList_ofList
    · cases h
      cases hw
      show IsDigits (String.ofList _).toList
      rw [String.toList_ofList]
      exact isDigits_cons hc
  · cases h
    cases hw
    show IsDigits (String.ofList _).toList
    rw [String.toList_ofList]
    exact isDigits_cons hc

/-- A string ends before the first quote, so it has none inside. -/
theorem string_lexed (h : string rest = (.lexeme k text, after))
    (hw : (Token.mk k (literal k text) line).word? = some w) : w.Lexed := by
  unfold string at h
  split at h
  · cases h
    cases hw
    show '"' ∉ (literal .str _).toList
    have hliteral (inside : List Char) : (literal .str ('"' :: inside ++ ['"'])).toList = inside := by
      simp [literal]
    rw [hliteral]
    intro hquote
    cases List.all_eq_true.1 List.all_takeWhile _ hquote
  · cases h
    cases hw

/-- Of the keywords, only those for truth values are words. -/
theorem keyword_lexed {x : String} (hk : k ∈ TokenKind.keywords.map Prod.snd)
    (hw : (Token.mk k x line).word? = some w) : w.Lexed := by
  simp only [TokenKind.keywords, List.map_cons, List.map_nil, List.mem_cons, List.not_mem_nil, or_false] at hk
  rcases hk with rfl | rfl | rfl | rfl | rfl | rfl | rfl | rfl | rfl | rfl | rfl | rfl | rfl | rfl | rfl | rfl
  all_goals
    cases hw
    try exact trivial

/-- A word is a keyword or a name. -/
theorem word_lexed (hc : startsWord c) (h : word c rest = (.lexeme k text, after))
    (hw : (Token.mk k (literal k text) line).word? = some w) : w.Lexed := by
  unfold word at h
  cases h
  rcases List.mem_cons.1 (ofWord_mem (String.ofList (c :: rest.takeWhile continuesWord))) with hk | hk
  · rw [hk] at hw
    cases hw
    refine ⟨hk, c, rest.takeWhile continuesWord, String.toList_ofList, hc, fun d hd => ?_⟩
    exact List.all_eq_true.1 List.all_takeWhile d hd
  · exact keyword_lexed hk hw

/-- Operators and delimiters have no form of their own. -/
theorem symbol_kinds (h : symbol c rest = (.lexeme k text, after)) :
    k ≠ .ident ∧ k ≠ .int ∧ k ≠ .real ∧ k ≠ .str := by
  have hsingle (k : TokenKind) (hk : (singleKind c).getD .illegal = k) :
      k ≠ .ident ∧ k ≠ .int ∧ k ≠ .real ∧ k ≠ .str := by
    unfold singleKind at hk
    split at hk
    all_goals
      subst hk
      exact ⟨nofun, nofun, nofun, nofun⟩
  unfold symbol at h
  split at h
  · split at h
    · next hdouble =>
      cases h
      unfold doubleKind at hdouble
      split at hdouble
      all_goals
        cases hdouble
        try exact ⟨nofun, nofun, nofun, nofun⟩
    · cases h
      exact hsingle _ rfl
  · cases h
    exact hsingle _ rfl

/-- Symbols stand for no names, numbers or strings. -/
theorem symbol_lexed (h : symbol c rest = (.lexeme k text, after))
    (hw : (Token.mk k (literal k text) line).word? = some w) : w.Lexed := by
  obtain ⟨hident, hint, hreal, hstr⟩ := symbol_kinds h
  unfold Token.word? at hw
  split at hw
  case h_1 h => exact absurd h hident
  case h_2 h => exact absurd h hint
  case h_3 h => exact absurd h hreal
  case h_4 h => exact absurd h hstr
  all_goals
    cases hw
    try exact trivial

/-- Whatever the first piece of a text is, its word has the form it should. -/
theorem firstPiece_lexed (h : firstPiece c rest = (.lexeme k text, after))
    (hw : (Token.mk k (literal k text) line).word? = some w) : w.Lexed := by
  unfold firstPiece at h
  split at h
  · cases h
  split at h
  · exact string_lexed h hw
  split at h
  · next hc => exact number_lexed hc h hw
  split at h
  · next hc => exact word_lexed hc h hw
  split at h
  · cases h
  · cases h
  · exact symbol_lexed h hw

/-- Piece after piece, by induction on the length of the text. -/
theorem tokensAt_lexed (line : Nat) (cs : List Char) : ∀ w ∈ words (tokensAt line cs), w.Lexed := by
  induction cs using pieces.induct generalizing line with
  | case1 =>
    rw [tokensAt_nil]
    nofun
  | case2 c rest ih =>
    cases hpiece : firstPiece c rest with
    | mk piece after =>
      rw [hpiece] at ih
      cases piece with
      | gap text =>
        rw [tokensAt_gap hpiece]
        exact ih _
      | lexeme k text =>
        rw [tokensAt_lexeme hpiece]
        intro w hw
        rcases List.mem_filterMap.1 hw with ⟨t, ht, hw⟩
        rcases List.mem_cons.1 ht with rfl | ht
        · exact firstPiece_lexed hpiece hw
        · exact ih _ w (List.mem_filterMap.2 ⟨t, ht, hw⟩)

end Scan

theorem scan_lexed (source : String) : ∀ w ∈ words (scan source), w.Lexed := tokensAt_lexed 1 _

end Pron
