import Mathlib
import Pron.Token.Scan

/-!
# One token after the other

`tokensAt line cs` are the tokens of a source that starts on the given line. A text that is written for one token, with
nothing behind it that would prolong it, is that token: `tokensAt_word`, `tokensAt_symbol`, `tokensAt_operator`,
`tokensAt_digits`, `tokensAt_decimal` and `tokensAt_string` take one token off the front of a source.
-/

namespace Pron

/-- One or more digits. -/
def IsDigits (text : List Char) : Prop := text ≠ [] ∧ ∀ d ∈ text, d.isDigit

/-- A natural number is written in digits. -/
theorem isDigits_toDigits (n : Nat) : IsDigits (Nat.toDigits 10 n) :=
  ⟨Nat.toDigits_ne_nil, fun _ hc => Nat.isDigit_of_mem_toDigits (by decide) (by decide) hc⟩

/-- Digits on both sides of a point. -/
def IsDecimal (text : List Char) : Prop :=
  ∃ whole fraction, text = whole ++ '.' :: fraction ∧ IsDigits whole ∧ IsDigits fraction

namespace Scan

variable {line : Nat} {c d : Char} {k : TokenKind} {text cs after : List Char}

/-- The tokens of a source that starts on the given line. -/
def tokensAt (line : Nat) (cs : List Char) : List Token := tokensFrom line (pieces cs)

/-- At the end of the source there is one token, which says so. -/
theorem tokensAt_nil : tokensAt line [] = [.endOfSource line] := by
  rw [tokensAt, pieces]
  rfl

/-- Gaps give no tokens, but their lines count. -/
theorem tokensAt_gap (h : firstPiece c cs = (.gap text, after)) :
    tokensAt line (c :: cs) = tokensAt (line + lineEnds text) after := by
  rw [tokensAt, pieces, h]
  rfl

/-- A lexeme is a token on the line where it starts. -/
theorem tokensAt_lexeme (h : firstPiece c cs = (.lexeme k text, after)) :
    tokensAt line (c :: cs) = ⟨k, literal k text, line⟩ :: tokensAt (line + lineEnds text) after := by
  rw [tokensAt, pieces, h]
  rfl

/-! ## Where a run of characters ends -/

/-- What comes next is not of a class. -/
def Stops (p : Char → Bool) (cs : List Char) : Prop := ∀ c ∈ cs.head?, p c = false

/-- A class ends before the first character that is not in it. -/
theorem Stops.cons {p : Char → Bool} (h : p c = false) : Stops p (c :: cs) := by
  rintro _ ⟨⟩
  exact h

/-- A text of a class is all that is taken of the class. -/
theorem takeWhile_append {p : Char → Bool} (htext : ∀ c ∈ text, p c) (hcs : Stops p cs) :
    (text ++ cs).takeWhile p = text := by
  rw [List.takeWhile_append_of_pos htext]
  cases cs with
  | nil => rw [List.takeWhile_nil, List.append_nil]
  | cons c cs =>
    rw [List.takeWhile_cons_of_neg (by rw [hcs c rfl]; nofun), List.append_nil]

/-- A text of a class is all that is dropped. -/
theorem dropWhile_append {p : Char → Bool} (htext : ∀ c ∈ text, p c) (hcs : Stops p cs) :
    (text ++ cs).dropWhile p = cs := by
  rw [List.dropWhile_append_of_pos htext]
  cases cs with
  | nil => rfl
  | cons c cs => exact List.dropWhile_cons_of_neg (by rw [hcs c rfl]; nofun)

/-- Text without line ends stays on its line. -/
theorem lineEnds_eq_zero {p : Char → Bool} (hp : p '\n' = false) (htext : ∀ c ∈ text, p c) : lineEnds text = 0 := by
  rw [lineEnds, List.count_eq_zero]
  intro h
  rw [htext _ h] at hp
  cases hp

/-! ## Layout -/

/-- White space is a gap, as far as it goes. -/
theorem firstPiece_blank (hc : isBlank c) (cs : List Char) :
    firstPiece c cs = (.gap (c :: cs.takeWhile isBlank), cs.dropWhile isBlank) := by
  unfold firstPiece
  rw [if_pos hc]

/-- White space is no token and goes with the layout behind it. -/
theorem tokensAt_blank (hc : isBlank c) (line : Nat) (cs : List Char) :
    tokensAt line (c :: cs) = tokensAt (line + lineEnds [c]) cs := by
  rw [tokensAt_gap (firstPiece_blank hc cs)]
  cases cs with
  | nil => rfl
  | cons d cs =>
    by_cases hd : isBlank d
    · have hends : lineEnds (c :: d :: cs.takeWhile isBlank) = lineEnds [c] + lineEnds (d :: cs.takeWhile isBlank) := by
        show ([c] ++ d :: cs.takeWhile isBlank).count '\n' = _
        exact List.count_append
      rw [tokensAt_gap (firstPiece_blank hd cs), List.takeWhile_cons_of_pos hd, List.dropWhile_cons_of_pos hd, hends,
        Nat.add_assoc]
    · rw [List.takeWhile_cons_of_neg hd, List.dropWhile_cons_of_neg hd]

/-- A space in front of a source can be left out. -/
theorem tokensAt_space (line : Nat) (cs : List Char) : tokensAt line (' ' :: cs) = tokensAt line cs :=
  tokensAt_blank rfl line cs

/-! ## Words and numbers -/

theorem continuesWord_newline : continuesWord '\n' = false := rfl

theorem isDigit_newline : Char.isDigit '\n' = false := rfl

/-- What starts a word also continues one. -/
theorem continuesWord_of_startsWord (h : startsWord c) : continuesWord c := by
  simp only [startsWord, continuesWord, Char.isAlphanum, Bool.or_eq_true] at h ⊢
  exact h.imp_left .inl

/-- A class without the four blanks has no white space. -/
theorem isBlank_eq_false {p : Char → Bool} (hp : p ' ' = false ∧ p '\t' = false ∧ p '\r' = false ∧ p '\n' = false)
    (hc : p c) : isBlank c = false := by
  rw [← Bool.not_eq_true]
  intro h
  simp only [isBlank, Bool.or_eq_true, beq_iff_eq] at h
  rcases h with ((rfl | rfl) | rfl) | rfl
  all_goals simp [hp] at hc

theorem isDigit_eq_false (h : startsWord c) : c.isDigit = false := by
  rw [← Bool.not_eq_true]
  intro hdigit
  simp only [Char.isDigit, ge_iff_le, Bool.and_eq_true, decide_eq_true_eq, UInt32.le_iff_toNat_le] at hdigit
  simp only [startsWord, Char.isAlpha, Char.isUpper, Char.isLower, Bool.or_eq_true, Bool.and_eq_true, decide_eq_true_eq,
    beq_iff_eq, ge_iff_le, UInt32.le_iff_toNat_le] at h
  obtain ⟨hlow, hhigh⟩ := hdigit
  rcases h with (⟨h, h'⟩ | ⟨h, h'⟩) | rfl
  · exact absurd (Nat.le_trans h hhigh) (by decide)
  · exact absurd (Nat.le_trans h hhigh) (by decide)
  · exact absurd hhigh (by decide)

/-- What a word starts with is neither layout, nor a quote, nor a digit. -/
theorem firstPiece_word (h : startsWord c) : firstPiece c cs = word c cs := by
  have hblank : isBlank c = false := isBlank_eq_false ⟨rfl, rfl, rfl, rfl⟩ h
  have hquote : (c == '"') = false := by
    rw [beq_eq_false_iff_ne]
    rintro rfl
    cases h
  simp only [firstPiece, hblank, hquote, isDigit_eq_false h, h, if_true, Bool.false_eq_true, if_false]

/-- A word is an identifier or a keyword. -/
theorem ofWord_mem (x : String) : TokenKind.ofWord x ∈ TokenKind.ident :: TokenKind.keywords.map Prod.snd := by
  have hlookup (words : List (String × TokenKind)) : (words.lookup x).getD .ident ∈ .ident :: words.map Prod.snd := by
    induction words with
    | nil => exact List.mem_singleton_self _
    | cons w words ih =>
      rw [List.lookup_cons]
      split
      · exact List.mem_cons_of_mem _ (List.mem_cons_self ..)
      · rcases List.mem_cons.1 ih with h | h
        · rw [h]
          exact List.mem_cons_self ..
        · exact List.mem_cons_of_mem _ (List.mem_cons_of_mem _ h)
  exact hlookup _

/-- A word is no string. -/
theorem ofWord_ne_str (x : String) : TokenKind.ofWord x ≠ .str := by
  have hkinds : ∀ k ∈ TokenKind.ident :: TokenKind.keywords.map Prod.snd, k ≠ .str := by decide
  exact hkinds _ (ofWord_mem x)

/-- A word is a lexeme, the kind of which is that of a keyword or of a name. -/
theorem firstPiece_ofWord (hc : startsWord c) (htext : ∀ d ∈ text, continuesWord d) (hcs : Stops continuesWord cs) :
    firstPiece c (text ++ cs) = (.lexeme (.ofWord (String.ofList (c :: text))) (c :: text), cs) := by
  rw [firstPiece_word hc, word, takeWhile_append htext hcs, dropWhile_append htext hcs]

/-- A word in front of a source is a token. -/
theorem tokensAt_word (hc : startsWord c) (htext : ∀ d ∈ text, continuesWord d) (hcs : Stops continuesWord cs) :
    tokensAt line (c :: text ++ cs) =
      ⟨.ofWord (String.ofList (c :: text)), String.ofList (c :: text), line⟩ :: tokensAt line cs := by
  have hline : lineEnds (c :: text) = 0 := by
    refine lineEnds_eq_zero continuesWord_newline fun d hd => ?_
    rcases List.mem_cons.1 hd with rfl | hd
    · exact continuesWord_of_startsWord hc
    · exact htext d hd
  rw [List.cons_append, tokensAt_lexeme (firstPiece_ofWord hc htext hcs), hline]
  have hkind : TokenKind.ofWord (String.ofList (c :: text)) ≠ .str := ofWord_ne_str _
  rw [literal, if_neg hkind]
  rfl

/-! ## Numbers -/

/-- What a number starts with is neither layout nor a quote. -/
theorem firstPiece_digit (h : c.isDigit) : firstPiece c cs = number c cs := by
  have hblank : isBlank c = false := isBlank_eq_false ⟨rfl, rfl, rfl, rfl⟩ h
  have hquote : (c == '"') = false := by
    rw [beq_eq_false_iff_ne]
    rintro rfl
    cases h
  simp only [firstPiece, hblank, hquote, h, if_true, Bool.false_eq_true, if_false]

/-- Digits are a lexeme if neither digits nor a point come after them. -/
theorem firstPiece_digits (htext : ∀ d ∈ c :: text, d.isDigit) (hcs : Stops (fun d => d.isDigit || d == '.') cs) :
    firstPiece c (text ++ cs) = (.lexeme .int (c :: text), cs) := by
  have hstops : Stops Char.isDigit cs := fun d hd => (Bool.or_eq_false_iff.1 (hcs d hd)).1
  obtain ⟨hc, htext⟩ := List.forall_mem_cons.1 htext
  rw [firstPiece_digit hc, number, takeWhile_append htext hstops, dropWhile_append htext hstops]
  split
  · cases (Bool.or_eq_false_iff.1 (hcs '.' rfl)).2
  · rfl

/-- Digits in front of a source are a token. -/
theorem tokensAt_digits (htext : ∀ d ∈ c :: text, d.isDigit) (hcs : Stops (fun d => d.isDigit || d == '.') cs) :
    tokensAt line (c :: text ++ cs) = ⟨.int, String.ofList (c :: text), line⟩ :: tokensAt line cs := by
  rw [List.cons_append, tokensAt_lexeme (firstPiece_digits htext hcs), lineEnds_eq_zero isDigit_newline htext]
  rfl

section Decimal

variable {fraction : List Char} (htext : ∀ d ∈ c :: text, d.isDigit) (hfraction : ∀ e ∈ d :: fraction, e.isDigit)
  (hcs : Stops Char.isDigit cs)

include htext hfraction hcs

/-- Digits on both sides of a point are one lexeme. -/
theorem firstPiece_decimal : firstPiece c (text ++ ('.' :: d :: fraction ++ cs)) =
    (.lexeme .real (c :: text ++ '.' :: d :: fraction), cs) := by
  obtain ⟨hc, htext⟩ := List.forall_mem_cons.1 htext
  obtain ⟨hd, hfraction⟩ := List.forall_mem_cons.1 hfraction
  have hpoint : Stops Char.isDigit ('.' :: d :: fraction ++ cs) := by
    rintro _ ⟨⟩
    rfl
  rw [firstPiece_digit hc, number, takeWhile_append htext hpoint, dropWhile_append htext hpoint]
  simp only [List.cons_append, hd, if_true, takeWhile_append hfraction hcs, dropWhile_append hfraction hcs]

/-- A decimal number in front of a source is a token. -/
theorem tokensAt_decimal : tokensAt line (c :: text ++ '.' :: d :: fraction ++ cs) =
    ⟨.real, String.ofList (c :: text ++ '.' :: d :: fraction), line⟩ :: tokensAt line cs := by
  have hline : lineEnds (c :: text ++ '.' :: d :: fraction) = 0 := by
    rw [lineEnds, List.count_append, ← lineEnds, lineEnds_eq_zero isDigit_newline htext, List.count_cons, ← lineEnds,
      lineEnds_eq_zero isDigit_newline hfraction]
    rfl
  rw [List.append_assoc, List.cons_append, tokensAt_lexeme (firstPiece_decimal htext hfraction hcs), hline]
  rfl

end Decimal

/-! ## Strings -/

/-- A string is a lexeme with its quotes. -/
theorem firstPiece_string (htext : '"' ∉ text) (cs : List Char) :
    firstPiece '"' (text ++ '"' :: cs) = (.lexeme .str ('"' :: text ++ ['"']), cs) := by
  have hinside : ∀ c ∈ text, (c != '"') = true := by
    intro c hc
    rw [bne_iff_ne]
    rintro rfl
    exact htext hc
  have hquote : Stops (· != '"') ('"' :: cs) := by
    rintro _ ⟨⟩
    rfl
  show string (text ++ '"' :: cs) = _
  rw [string, takeWhile_append hinside hquote, dropWhile_append hinside hquote]

/-- A string in front of a source is a token without its quotes; the lines in it count for what comes after it. -/
theorem tokensAt_string (htext : '"' ∉ text) : tokensAt line ('"' :: text ++ '"' :: cs) =
    ⟨.str, String.ofList text, line⟩ :: tokensAt (line + lineEnds text) cs := by
  have hliteral : literal .str ('"' :: text ++ ['"']) = String.ofList text := by
    simp [literal]
  have hline : lineEnds ('"' :: text ++ ['"']) = lineEnds text := by
    simp [lineEnds]
  rw [List.cons_append, tokensAt_lexeme (firstPiece_string htext cs), hliteral, hline]

/-! ## Operators and delimiters -/

/-- A character that is no token together with the next one. -/
def Alone (c : Char) (cs : List Char) : Prop :=
  ∀ d ∈ cs.head?, doubleKind c d = none ∧ (c = '/' → d ≠ '/' ∧ d ≠ '*')

/-- The characters of operators and delimiters start nothing else. -/
theorem symbol_classes (hk : singleKind c = some k) :
    isBlank c = false ∧ (c == '"') = false ∧ c.isDigit = false ∧ startsWord c = false ∧ c ≠ '\n' ∧ k ≠ .str := by
  unfold singleKind at hk
  split at hk
  case h_20 => cases hk
  all_goals
    cases hk
    exact ⟨rfl, rfl, rfl, rfl, by decide, nofun⟩

/-- The first character of an operator of two is an operator alone. -/
theorem singleKind_of_doubleKind (hk : doubleKind c d = some k) : ∃ kind, singleKind c = some kind := by
  unfold doubleKind at hk
  split at hk
  case h_5 => cases hk
  all_goals exact ⟨_, rfl⟩

/-- An operator of two characters has one second character. -/
theorem doubleKind_eq_none {e : Char} (hk : doubleKind c d = some k) (he : e ≠ d) : doubleKind c e = none := by
  unfold doubleKind at hk
  split at hk
  case h_5 => cases hk
  all_goals
    unfold doubleKind
    split
    all_goals first
      | exact absurd rfl he
      | rfl
      | exact absurd ‹_ = _› (by decide)

/-- Every symbol is a lexeme, an illegal one if it is nothing else. -/
theorem symbol_lexeme (c : Char) (cs : List Char) : ∃ k text after, symbol c cs = (.lexeme k text, after) := by
  unfold symbol
  split
  · split
    all_goals exact ⟨_, _, _, rfl⟩
  · exact ⟨_, _, _, rfl⟩

theorem number_lexeme (c : Char) (cs : List Char) : ∃ k text after, Scan.number c cs = (.lexeme k text, after) := by
  unfold Scan.number
  split
  · split
    all_goals exact ⟨_, _, _, rfl⟩
  · exact ⟨_, _, _, rfl⟩

theorem string_lexeme (cs : List Char) : ∃ k text after, Scan.string cs = (.lexeme k text, after) := by
  unfold Scan.string
  split
  all_goals exact ⟨_, _, _, rfl⟩

/-- Where nothing else can start, the first piece is an operator or a stray character. -/
theorem firstPiece_symbol (hblank : isBlank c = false) (hquote : c ≠ '"') (hdigit : c.isDigit = false)
    (hword : startsWord c = false) (hslash : c ≠ '/') : firstPiece c cs = symbol c cs := by
  unfold firstPiece
  rw [if_neg (by simp [hblank]), if_neg (by simp [hquote]), if_neg (by simp [hdigit]), if_neg (by simp [hword])]
  split
  · exact absurd rfl hslash
  · exact absurd rfl hslash
  · rfl

/-- A slash that begins no comment is an operator. -/
theorem firstPiece_slash (hslash : cs.head? ≠ some '/') (hstar : cs.head? ≠ some '*') :
    firstPiece '/' cs = (.lexeme .slash ['/'], cs) := by
  have hsymbol : firstPiece '/' cs = symbol '/' cs := by
    unfold firstPiece
    rw [if_neg (by decide), if_neg (by decide), if_neg (by decide), if_neg (by decide)]
    split
    next heq => exact absurd List.head?_cons hslash
    next heq => exact absurd List.head?_cons hstar
    next => rfl
  rw [hsymbol]
  cases cs with
  | nil => rfl
  | cons e cs => rfl

/-- A character with no meaning is a lexeme by itself. -/
theorem firstPiece_stray (hblank : isBlank c = false) (hquote : c ≠ '"') (hdigit : c.isDigit = false)
    (hword : startsWord c = false) (hsingle : singleKind c = none) :
    firstPiece c cs = (.lexeme .illegal [c], cs) := by
  have hslash : c ≠ '/' := by
    rintro rfl
    cases hsingle
  have hdouble (d : Char) : doubleKind c d = none := by
    rw [Option.eq_none_iff_forall_ne_some]
    intro kind hkind
    obtain ⟨one, hone⟩ := singleKind_of_doubleKind hkind
    rw [hsingle] at hone
    cases hone
  rw [firstPiece_symbol hblank hquote hdigit hword hslash]
  unfold symbol
  cases cs with
  | nil => simp [hsingle]
  | cons d cs => simp [hdouble, hsingle]

/-- A symbol that stands alone is a lexeme of one character. -/
theorem firstPiece_single (hk : singleKind c = some k) (hcs : Alone c cs) : firstPiece c cs = (.lexeme k [c], cs) := by
  obtain ⟨hblank, hquote, hdigit, hword, -⟩ := symbol_classes hk
  unfold firstPiece
  simp only [hblank, hquote, hdigit, hword, Bool.false_eq_true, if_false]
  split
  · exact absurd rfl ((hcs '/' rfl).2 rfl).1
  · exact absurd rfl ((hcs '*' rfl).2 rfl).2
  · unfold symbol
    split
    · rw [(hcs _ rfl).1, hk]
      rfl
    · rw [hk]
      rfl

/-- A symbol that stands alone in front of a source is a token. -/
theorem tokensAt_symbol (hk : singleKind c = some k) (hcs : Alone c cs) :
    tokensAt line (c :: cs) = ⟨k, String.ofList [c], line⟩ :: tokensAt line cs := by
  obtain ⟨-, -, -, -, hline, hstr⟩ := symbol_classes hk
  have hends : lineEnds [c] = 0 := by
    rw [lineEnds, List.count_eq_zero, List.mem_singleton]
    exact hline.symm
  rw [tokensAt_lexeme (firstPiece_single hk hcs), hends, literal, if_neg hstr]
  rfl

/-- Two characters that go together are one lexeme. -/
theorem firstPiece_double (hk : doubleKind c d = some k) (cs : List Char) :
    firstPiece c (d :: cs) = (.lexeme k [c, d], cs) := by
  unfold doubleKind at hk
  split at hk
  case h_5 => cases hk
  all_goals
    cases hk
    rfl

/-- An operator of two characters in front of a source is one token. -/
theorem tokensAt_operator (hk : doubleKind c d = some k) :
    tokensAt line (c :: d :: cs) = ⟨k, String.ofList [c, d], line⟩ :: tokensAt line cs := by
  rw [tokensAt_lexeme (firstPiece_double hk cs)]
  unfold doubleKind at hk
  split at hk
  case h_5 => cases hk
  all_goals
    cases hk
    rfl

end Scan

end Pron
