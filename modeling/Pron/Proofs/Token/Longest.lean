import Pron.Proofs.Token.Lexeme

/-!
# What a lexeme is

`IsLexeme` lists the texts of the language, `Layout` and `LastLayout` what may stand between them and behind them.
`Next kind text behind` says which lexeme comes first in a source: the longest one there is, and where there is none, a
stray character or a quote that is never closed. The scanner cuts words, numbers, strings and operators that way:
`next_of_word`, `next_of_number`, `next_of_string` and `next_of_symbol`.
-/

namespace Pron

namespace Scan

/-! ## Layout and lexemes -/

/-- White space and comments that end by themselves. A `//` comment ends before the line end, which is white space. -/
inductive Layout : List Char → Prop
  | nil : Layout []
  | blank {c rest} : isBlank c → Layout rest → Layout (c :: rest)
  | line {comment rest} : '\n' ∉ comment → Layout ('\n' :: rest) → Layout ('/' :: '/' :: comment ++ '\n' :: rest)
  | block {inside rest} : ¬ ['*', '/'] <:+: inside ++ ['*'] → Layout rest →
      Layout ('/' :: '*' :: inside ++ '*' :: '/' :: rest)

/-- Nothing, or a comment that the end of the source leaves open. -/
inductive OpenComment : List Char → Prop
  | none : OpenComment []
  | line {comment} : '\n' ∉ comment → OpenComment ('/' :: '/' :: comment)
  | block {inside} : ¬ ['*', '/'] <:+: inside → OpenComment ('/' :: '*' :: inside)

/-- Layout at the end of a source. -/
def LastLayout (last : List Char) : Prop := ∃ gap comment, last = gap ++ comment ∧ Layout gap ∧ OpenComment comment

/-- The texts of the language and their kinds. -/
inductive IsLexeme : TokenKind → List Char → Prop
  | word {c text} : startsWord c → (∀ d ∈ text, continuesWord d) →
      IsLexeme (.ofWord (String.ofList (c :: text))) (c :: text)
  | int {text} : IsDigits text → IsLexeme .int text
  | real {text} : IsDecimal text → IsLexeme .real text
  | str {inside} : '"' ∉ inside → IsLexeme .str ('"' :: inside ++ ['"'])
  | single {c k} : singleKind c = some k → IsLexeme k [c]
  | double {c d k} : doubleKind c d = some k → IsLexeme k [c, d]

/-- A comment starts here. -/
def StartsComment (cs : List Char) : Prop := ['/', '/'] <+: cs ∨ ['/', '*'] <+: cs

/-- No lexeme at the start of `cs` has more than `n` characters. -/
def AtMost (n : Nat) (cs : List Char) : Prop := ∀ kind text, IsLexeme kind text → text <+: cs → text.length ≤ n

/-- What comes first in the source `text ++ behind`. -/
inductive Next : TokenKind → List Char → List Char → Prop
  | lexeme {kind text behind} : IsLexeme kind text → AtMost text.length (text ++ behind) →
      ¬ StartsComment (text ++ behind) → Next kind text behind
  | stray {c behind} : isBlank c = false → c ≠ '"' → AtMost 0 (c :: behind) → Next .illegal [c] behind
  | openQuote {inside} : '"' ∉ inside → Next .illegal ('"' :: inside) []

namespace Layout

variable {gap text rest : List Char}

theorem append (hgap : Layout gap) (hrest : Layout rest) : Layout (gap ++ rest) := by
  induction hgap with
  | nil => exact hrest
  | blank hc _ ih => exact .blank hc ih
  | line hcomment _ ih =>
    rw [List.append_assoc]
    exact .line hcomment ih
  | block hinside _ ih =>
    rw [List.append_assoc]
    exact .block hinside ih

theorem of_blanks (h : ∀ c ∈ text, isBlank c) : Layout text := by
  induction text with
  | nil => exact .nil
  | cons c text ih =>
    obtain ⟨hc, htext⟩ := List.forall_mem_cons.1 h
    exact .blank hc (ih htext)

end Layout

/-! ## What a lexeme can look like, by its first character -/

variable {c d : Char} {k : TokenKind} {text cs rest after : List Char}

/-- The first character decides whether a lexeme is a word, a number, a string or an operator. -/
theorem IsLexeme.shape (h : IsLexeme k (c :: text)) :
    (startsWord c ∧ ∀ d ∈ text, continuesWord d) ∨
      (c.isDigit ∧ (IsDigits (c :: text) ∨ IsDecimal (c :: text))) ∨
      (c = '"' ∧ ∃ inside, '"' ∉ inside ∧ text = inside ++ ['"']) ∨
      ((∃ kind, singleKind c = some kind) ∧ (text = [] ∨ ∃ d, text = [d] ∧ doubleKind c d = some k)) := by
  generalize heq : c :: text = all at h
  cases h with
  | word hc htext =>
    cases heq
    exact .inl ⟨hc, htext⟩
  | int h =>
    subst heq
    exact .inr (.inl ⟨h.2 c (List.mem_cons_self ..), .inl h⟩)
  | real h =>
    subst heq
    obtain ⟨whole, fraction, heq, hwhole, hfraction⟩ := h
    cases whole with
    | nil => exact absurd rfl hwhole.1
    | cons b whole =>
      cases heq
      exact .inr (.inl ⟨hwhole.2 c (List.mem_cons_self ..), .inr ⟨c :: whole, fraction, rfl, hwhole, hfraction⟩⟩)
  | str hinside =>
    cases heq
    exact .inr (.inr (.inl ⟨rfl, _, hinside, rfl⟩))
  | single hk =>
    cases heq
    exact .inr (.inr (.inr ⟨⟨_, hk⟩, .inl rfl⟩))
  | double hk =>
    cases heq
    exact .inr (.inr (.inr ⟨singleKind_of_doubleKind hk, .inr ⟨_, rfl, hk⟩⟩))

theorem IsLexeme.ne_nil (h : IsLexeme k text) : text ≠ [] := by
  cases h with
  | int h => exact h.1
  | real h =>
    obtain ⟨whole, fraction, rfl, _⟩ := h
    simp
  | _ => simp

/-- To bound the lexemes of a source it is enough to bound those that its first character allows. -/
theorem AtMost.of_cons {n : Nat} (h : ∀ kind text, IsLexeme kind (c :: text) → text <+: rest → text.length < n) :
    AtMost n (c :: rest) := by
  intro kind text hlexeme hstarts
  cases text with
  | nil => exact absurd rfl hlexeme.ne_nil
  | cons b text =>
    obtain ⟨rfl, hrest⟩ := List.cons_prefix_cons.1 hstarts
    exact h kind text hlexeme hrest

/-- A run of characters of a class is no longer than the longest one. -/
theorem length_le_takeWhile {p : Char → Bool} (htext : ∀ d ∈ text, p d) (hstarts : text <+: cs) :
    text.length ≤ (cs.takeWhile p).length := by
  obtain ⟨behind, rfl⟩ := hstarts
  rw [List.takeWhile_append_of_pos htext, List.length_append]
  exact Nat.le_add_right ..

theorem forall_takeWhile (p : Char → Bool) (cs : List Char) : ∀ d ∈ cs.takeWhile p, p d :=
  List.all_eq_true.1 List.all_takeWhile

/-! ## Words -/

theorem word_classes (h : startsWord c) : c.isDigit = false ∧ c ≠ '"' ∧ singleKind c = none := by
  refine ⟨isDigit_eq_false h, ?_, ?_⟩
  · rintro rfl
    cases h
  · rw [Option.eq_none_iff_forall_ne_some]
    intro kind hkind
    rw [(symbol_classes hkind).2.2.2.1] at h
    cases h

theorem next_of_word (hc : startsWord c) :
    Next (.ofWord (String.ofList (c :: rest.takeWhile continuesWord))) (c :: rest.takeWhile continuesWord)
      (rest.dropWhile continuesWord) := by
  obtain ⟨hdigit, hquote, hsingle⟩ := word_classes hc
  have hall : c :: rest.takeWhile continuesWord ++ rest.dropWhile continuesWord = c :: rest := by simp
  refine .lexeme (.word hc (forall_takeWhile continuesWord rest)) ?_ ?_
  · rw [hall]
    refine .of_cons fun kind text hlexeme hstarts => ?_
    rcases hlexeme.shape with ⟨-, htext⟩ | ⟨hc, -⟩ | ⟨hc, -⟩ | ⟨⟨kind, hkind⟩, -⟩
    · exact Nat.lt_succ_of_le (length_le_takeWhile htext hstarts)
    · rw [hdigit] at hc
      cases hc
    · exact absurd hc hquote
    · rw [hsingle] at hkind
      cases hkind
  · rw [hall]
    rintro (h | h)
    all_goals
      cases (List.cons_prefix_cons.1 h).1
      cases hc

/-! ## Numbers -/

theorem digit_classes (h : c.isDigit) : startsWord c = false ∧ c ≠ '"' ∧ singleKind c = none := by
  refine ⟨?_, ?_, ?_⟩
  · rw [← Bool.not_eq_true]
    intro hword
    rw [isDigit_eq_false hword] at h
    cases h
  · rintro rfl
    cases h
  · rw [Option.eq_none_iff_forall_ne_some]
    intro kind hkind
    rw [(symbol_classes hkind).2.2.1] at h
    cases h

/-- Only a number starts with a digit. -/
theorem IsLexeme.number (hc : c.isDigit) (h : IsLexeme k (c :: text)) :
    IsDigits (c :: text) ∨ IsDecimal (c :: text) := by
  obtain ⟨hword, hquote, hsingle⟩ := digit_classes hc
  rcases h.shape with ⟨hc, -⟩ | ⟨-, h⟩ | ⟨hc, -⟩ | ⟨⟨kind, hkind⟩, -⟩
  · rw [hword] at hc
    cases hc
  · exact h
  · exact absurd hc hquote
  · rw [hsingle] at hkind
    cases hkind

/-- A decimal at the start of a source takes the digits up to the point, and no more than the digits behind it. -/
theorem decimal_split (h : IsDecimal text) (hstarts : text <+: cs) :
    ∃ d after, cs.dropWhile Char.isDigit = '.' :: d :: after ∧ d.isDigit ∧
      text.length ≤ (cs.takeWhile Char.isDigit ++ '.' :: d :: after.takeWhile Char.isDigit).length := by
  obtain ⟨whole, fraction, rfl, hwhole, hnonempty, hfraction⟩ := h
  obtain ⟨behind, rfl⟩ := hstarts
  cases fraction with
  | nil => exact absurd rfl hnonempty
  | cons d fraction =>
    obtain ⟨hd, hfraction⟩ := List.forall_mem_cons.1 hfraction
    have hpoint : Stops Char.isDigit ('.' :: d :: (fraction ++ behind)) := .cons rfl
    have hcs : whole ++ '.' :: d :: fraction ++ behind = whole ++ '.' :: d :: (fraction ++ behind) := by simp
    have hlength := length_le_takeWhile hfraction (List.prefix_append fraction behind)
    refine ⟨d, fraction ++ behind, ?_, hd, ?_⟩
    · rw [hcs, dropWhile_append hwhole.2 hpoint]
    · rw [hcs, takeWhile_append hwhole.2 hpoint]
      simp only [List.length_append, List.length_cons]
      omega

/-- To bound the numbers of a source it is enough to bound its digits, and the fraction behind them if there is one. -/
theorem AtMost.of_digit {n : Nat} (hc : c.isDigit) (hint : (c :: rest.takeWhile Char.isDigit).length ≤ n)
    (hreal : ∀ d after, rest.dropWhile Char.isDigit = '.' :: d :: after → d.isDigit →
      (c :: rest.takeWhile Char.isDigit ++ '.' :: d :: after.takeWhile Char.isDigit).length ≤ n) :
    AtMost n (c :: rest) := by
  have htake : (c :: rest).takeWhile Char.isDigit = c :: rest.takeWhile Char.isDigit := List.takeWhile_cons_of_pos hc
  have hdrop : (c :: rest).dropWhile Char.isDigit = rest.dropWhile Char.isDigit := List.dropWhile_cons_of_pos hc
  refine .of_cons fun kind text hlexeme hstarts => ?_
  have hstarts : c :: text <+: c :: rest := List.cons_prefix_cons.2 ⟨rfl, hstarts⟩
  show (c :: text).length ≤ n
  rcases hlexeme.number hc with h | h
  · refine Nat.le_trans (length_le_takeWhile h.2 hstarts) ?_
    rwa [htake]
  · obtain ⟨d, after, heq, hd, hlength⟩ := decimal_split h hstarts
    rw [hdrop] at heq
    rw [htake] at hlength
    exact Nat.le_trans hlength (hreal d after heq hd)

theorem startsComment_head (h : StartsComment (c :: cs)) : c = '/' := by
  rcases h with h | h
  all_goals exact (List.cons_prefix_cons.1 h).1.symm

theorem next_of_number (hc : c.isDigit) (h : Scan.number c rest = (.lexeme k text, after)) : Next k text after := by
  have hall : text ++ after = c :: rest := by
    have := number_append c rest
    rwa [h] at this
  have hcomment : ¬ StartsComment (text ++ after) := by
    rw [hall]
    intro h
    rw [startsComment_head h] at hc
    cases hc
  have hwhole : IsDigits (c :: rest.takeWhile Char.isDigit) :=
    ⟨nofun, List.forall_mem_cons.2 ⟨hc, forall_takeWhile Char.isDigit rest⟩⟩
  unfold Scan.number at h
  split at h
  next d behind eq =>
    split at h
    next hd =>
      cases h
      have hfraction : IsDigits (d :: behind.takeWhile Char.isDigit) :=
        ⟨nofun, List.forall_mem_cons.2 ⟨hd, forall_takeWhile Char.isDigit behind⟩⟩
      refine .lexeme (.real ⟨_, _, rfl, hwhole, hfraction⟩) ?_ hcomment
      rw [hall]
      refine .of_digit hc ?_ fun d' after' heq _ => ?_
      · simp
      · cases eq.symm.trans heq
        exact Nat.le_refl _
    next hd =>
      cases h
      refine .lexeme (.int hwhole) ?_ hcomment
      rw [hall]
      refine .of_digit hc (Nat.le_refl _) fun d' after' heq hd' => ?_
      cases eq.symm.trans heq
      exact absurd hd' hd
  next hother =>
    cases h
    refine .lexeme (.int hwhole) ?_ hcomment
    rw [hall]
    exact .of_digit hc (Nat.le_refl _) fun d' after' heq _ => absurd heq (hother d' after')

/-! ## Strings -/

/-- Only a string starts with a quote. -/
theorem IsLexeme.str_inside (h : IsLexeme k ('"' :: text)) : ∃ inside, '"' ∉ inside ∧ text = inside ++ ['"'] := by
  rcases h.shape with ⟨hc, -⟩ | ⟨hc, -⟩ | ⟨-, h⟩ | ⟨⟨kind, hkind⟩, -⟩
  · cases hc
  · cases hc
  · exact h
  · cases hkind

theorem not_mem_of_forall {inside : List Char} (h : ∀ c ∈ inside, (c != '"') = true) : '"' ∉ inside := by
  intro hmem
  cases h _ hmem

theorem next_of_string (h : Scan.string rest = (.lexeme k text, after)) : Next k text after := by
  have hall : text ++ after = '"' :: rest := by
    have := string_append rest
    rwa [h] at this
  have hinside : '"' ∉ rest.takeWhile (· != '"') := not_mem_of_forall (forall_takeWhile _ rest)
  have hcomment : ¬ StartsComment (text ++ after) := by
    rw [hall]
    intro h
    cases startsComment_head h
  unfold Scan.string at h
  split at h
  next q behind eq =>
    cases h
    refine .lexeme (.str hinside) ?_ hcomment
    rw [hall]
    refine .of_cons fun kind text hlexeme hstarts => ?_
    obtain ⟨inside, hnone, rfl⟩ := hlexeme.str_inside
    have hbefore : inside <+: rest := (List.prefix_append inside ['"']).trans hstarts
    have : inside.length ≤ (rest.takeWhile (· != '"')).length := by
      refine length_le_takeWhile (fun d hd => ?_) hbefore
      rw [bne_iff_ne]
      rintro rfl
      exact hnone hd
    simp only [List.length_append, List.length_cons, List.length_nil]
    omega
  next eq =>
    cases h
    refine .openQuote ?_
    rw [← List.takeWhile_append_dropWhile (p := (· != '"')) (l := rest), eq, List.append_nil]
    exact hinside

/-! ## Operators -/

/-- Where neither a word, nor a number, nor a string can start, only an operator can. -/
theorem IsLexeme.operator (hquote : c ≠ '"') (hdigit : c.isDigit = false) (hword : startsWord c = false)
    (h : IsLexeme k (c :: text)) :
    (∃ kind, singleKind c = some kind) ∧ (text = [] ∨ ∃ d, text = [d] ∧ doubleKind c d = some k) := by
  rcases h.shape with ⟨hc, -⟩ | ⟨hc, -⟩ | ⟨hc, -⟩ | h
  · rw [hword] at hc
    cases hc
  · rw [hdigit] at hc
    cases hc
  · exact absurd hc hquote
  · exact h

theorem next_of_symbol (hblank : isBlank c = false) (hquote : c ≠ '"') (hdigit : c.isDigit = false)
    (hword : startsWord c = false) (hcomment : ¬ StartsComment (c :: rest))
    (h : symbol c rest = (.lexeme k text, after)) : Next k text after := by
  have hall : text ++ after = c :: rest := by
    have := symbol_append c rest
    rwa [h] at this
  have hsingle (hnone : ∀ d ∈ rest.head?, doubleKind c d = none) :
      Next ((singleKind c).getD .illegal) [c] rest := by
    have hbound kind text (hlexeme : IsLexeme kind (c :: text)) (hstarts : text <+: rest) :
        (∃ kind, singleKind c = some kind) ∧ text = [] := by
      obtain ⟨hkind, rfl | ⟨d, rfl, hdouble⟩⟩ := hlexeme.operator hquote hdigit hword
      · exact ⟨hkind, rfl⟩
      · obtain ⟨behind, rfl⟩ := hstarts
        rw [hnone d rfl] at hdouble
        cases hdouble
    cases hkind : singleKind c with
    | some kind =>
      refine .lexeme (.single hkind) (.of_cons fun kind text hlexeme hstarts => ?_) hcomment
      rw [(hbound kind text hlexeme hstarts).2]
      exact Nat.zero_lt_one
    | none =>
      refine .stray hblank hquote (.of_cons fun kind text hlexeme hstarts => ?_)
      obtain ⟨_, h⟩ := (hbound kind text hlexeme hstarts).1
      rw [hkind] at h
      cases h
  unfold symbol at h
  split at h
  next d behind =>
    split at h
    next kind hdouble =>
      cases h
      refine .lexeme (.double hdouble) (.of_cons fun kind text hlexeme hstarts => ?_) hcomment
      obtain ⟨-, rfl | ⟨d, rfl, -⟩⟩ := hlexeme.operator hquote hdigit hword
      · simp
      · simp
    next hdouble =>
      cases h
      exact hsingle fun d' hd' => by cases hd'; exact hdouble
  next =>
    cases h
    exact hsingle nofun

end Scan

end Pron
