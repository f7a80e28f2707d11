import Pron.Proofs.Token.Partition

/-!
# Scanning line by line

No lexeme goes over the end of a line but a string. So when a text is followed by a line end and more text, its tokens
are followed by those of what comes after it (`tokensAt_line`), unless it breaks off inside of a block comment or of a
string.
-/

namespace Pron

/-- A block comment that is not closed. -/
def Piece.OpenBlock (piece : Piece) : Prop := ∃ inside, piece = .gap ('/' :: '*' :: inside) ∧ ¬ ['*', '/'] <:+: inside

instance (piece : Piece) : Decidable piece.OpenBlock :=
  match piece with
  | .lexeme .. => isFalse nofun
  | .gap text =>
    decidable_of_iff (['/', '*'] <+: text ∧ ¬ ['*', '/'] <:+: text.drop 2) (by
      constructor
      · rintro ⟨⟨inside, rfl⟩, h⟩
        exact ⟨inside, rfl, h⟩
      · rintro ⟨inside, heq, h⟩
        cases heq
        exact ⟨⟨inside, rfl⟩, h⟩)

namespace Scan

variable {line : Nat} {c : Char} {k : TokenKind} {text cs rest after more : List Char} {p : Char → Bool}

/-- A run of characters that stops before the end of a line is not prolonged by what comes after it. -/
theorem takeWhile_line (hp : p '\n' = false) (cs more : List Char) :
    (cs ++ '\n' :: more).takeWhile p = cs.takeWhile p := by
  induction cs with
  | nil => rw [List.nil_append, List.takeWhile_cons_of_neg (by simp [hp]), List.takeWhile_nil]
  | cons c cs ih =>
    rw [List.cons_append, List.takeWhile_cons, List.takeWhile_cons, ih]

theorem dropWhile_line (hp : p '\n' = false) (cs more : List Char) :
    (cs ++ '\n' :: more).dropWhile p = cs.dropWhile p ++ '\n' :: more := by
  induction cs with
  | nil => rw [List.nil_append, List.dropWhile_cons_of_neg (by simp [hp]), List.dropWhile_nil, List.nil_append]
  | cons c cs ih =>
    rw [List.cons_append, List.dropWhile_cons, List.dropWhile_cons, ih]
    split
    · rfl
    · rfl

theorem number_line (h : number c rest = (.lexeme k text, after)) :
    number c (rest ++ '\n' :: more) = (.lexeme k text, after ++ '\n' :: more) := by
  have htake := takeWhile_line isDigit_newline rest more
  have hdrop := dropWhile_line isDigit_newline rest more
  unfold number at h ⊢
  rw [htake, hdrop]
  split at h
  next d behind heq =>
    rw [heq]
    simp only [List.cons_append]
    split at h
    next hd =>
      cases h
      rw [if_pos hd, takeWhile_line isDigit_newline, dropWhile_line isDigit_newline]
      rfl
    next hd =>
      cases h
      rw [if_neg hd]
      rfl
  next hother =>
    cases h
    cases heq : rest.dropWhile Char.isDigit with
    | nil => rfl
    | cons e behind =>
      by_cases he : e = '.'
      · subst he
        cases behind with
        | nil => rfl
        | cons d behind => exact absurd heq (hother d behind)
      · split
        next heq' =>
          exact absurd (List.cons.inj heq').1 he
        next => rfl

theorem word_line (h : word c rest = (.lexeme k text, after)) :
    word c (rest ++ '\n' :: more) = (.lexeme k text, after ++ '\n' :: more) := by
  cases h
  rw [word, takeWhile_line continuesWord_newline, dropWhile_line continuesWord_newline]

theorem symbol_line (h : symbol c rest = (.lexeme k text, after)) :
    symbol c (rest ++ '\n' :: more) = (.lexeme k text, after ++ '\n' :: more) := by
  unfold symbol at h ⊢
  cases rest with
  | nil =>
    cases h
    have hnone : doubleKind c '\n' = none := by
      unfold doubleKind
      split
      all_goals first | rfl | (exact absurd ‹_ = _› (by decide))
    simp [hnone]
  | cons d rest =>
    simp only [List.cons_append] at h ⊢
    split at h
    next hdouble =>
      cases h
      rfl
    next hdouble =>
      cases h
      rfl

/-- A string that is closed. -/
theorem string_line (h : string rest = (.lexeme k text, after)) (hk : k ≠ .illegal) :
    string (rest ++ '\n' :: more) = (.lexeme k text, after ++ '\n' :: more) := by
  have hsplit := List.takeWhile_append_dropWhile (p := (· != '"')) (l := rest)
  unfold string at h
  split at h
  next q behind heq =>
    cases h
    have hq : q = '"' := by
      have := List.head?_dropWhile_not (· != '"') rest
      rw [heq] at this
      simpa using this
    subst hq
    have hinside : ∀ d ∈ rest.takeWhile (· != '"'), (d != '"') = true := forall_takeWhile _ rest
    have hstops : Stops (· != '"') ('"' :: (after ++ '\n' :: more)) := .cons rfl
    have hrest : rest ++ '\n' :: more = rest.takeWhile (· != '"') ++ '"' :: (after ++ '\n' :: more) := by
      rw [heq] at hsplit
      rw [← List.cons_append, ← List.append_assoc, hsplit]
    unfold string
    rw [hrest, takeWhile_append hinside hstops, dropWhile_append hinside hstops]
  next => cases h; exact absurd rfl hk

theorem head?_line (hd : '\n' ≠ c) (h : rest.head? ≠ some c) : (rest ++ '\n' :: more).head? ≠ some c := by
  cases rest with
  | nil => simpa using hd
  | cons d rest => exact h

/-- A lexeme other than an open quote is not changed by what comes on the next line. -/
theorem firstPiece_line (h : firstPiece c rest = (.lexeme k text, after)) (hk : k ≠ .illegal) :
    firstPiece c (rest ++ '\n' :: more) = (.lexeme k text, after ++ '\n' :: more) := by
  unfold firstPiece at h
  split at h
  next => cases h
  next hblank =>
  split at h
  next hquote =>
    obtain rfl : c = '"' := by simpa using hquote
    exact string_line h hk
  next hquote =>
  split at h
  next hdigit => exact (firstPiece_digit hdigit).trans (number_line h)
  next hdigit =>
  split at h
  next hword => exact (firstPiece_word hword).trans (word_line h)
  next hword =>
  split at h
  next => cases h
  next => cases h
  next hline hblock =>
    by_cases hslash : c = '/'
    · subst hslash
      have hslash : rest.head? ≠ some '/' := by
        intro hhead
        obtain ⟨behind, rfl⟩ := List.head?_eq_some_iff.1 hhead
        exact hline behind rfl rfl
      have hstar : rest.head? ≠ some '*' := by
        intro hhead
        obtain ⟨behind, rfl⟩ := List.head?_eq_some_iff.1 hhead
        exact hblock behind rfl rfl
      have hsymbol : symbol '/' rest = (.lexeme .slash ['/'], rest) := by cases rest <;> rfl
      rw [hsymbol] at h
      cases h
      exact firstPiece_slash (head?_line (by decide) hslash) (head?_line (by decide) hstar)
    · rw [firstPiece_symbol (by simpa using hblank) (by simpa using hquote) (by simpa using hdigit)
        (by simpa using hword) hslash]
      exact symbol_line h

/-- A block comment that is closed ends where it did. -/
theorem splitBlockComment_append_of_closed (h : ['*', '/'] <:+: cs) (more : List Char) :
    splitBlockComment (cs ++ more) = ((splitBlockComment cs).1, (splitBlockComment cs).2 ++ more) := by
  fun_induction splitBlockComment cs with
  | case1 rest => rfl
  | case2 c rest hother inside after hsplit ih =>
    have hrest : ['*', '/'] <:+: rest := by
      rcases List.infix_cons_iff.1 h with h | h
      · obtain ⟨rfl, behind, rfl⟩ := List.cons_prefix_cons.1 h
        exact (hother behind rfl rfl).elim
      · exact h
    have ih := ih hrest
    rw [hsplit] at ih
    rw [List.cons_append, splitBlockComment, ih]
    rintro behind rfl heq
    cases rest with
    | nil => cases hrest.length_le
    | cons d rest => exact hother rest rfl (by rw [(List.cons.inj heq).1])
  | case3 => cases h.length_le

/-- So is a comment, if it is not left open. -/
theorem firstPiece_comment_line (hc : isBlank c = false) (h : firstPiece c rest = (.gap text, after))
    (hopen : ¬ (Piece.gap text).OpenBlock) :
    firstPiece c (rest ++ '\n' :: more) = (.gap text, after ++ '\n' :: more) := by
  unfold firstPiece at h
  rw [if_neg (by simp [hc])] at h
  split at h
  next =>
    obtain ⟨k, text, after, hpiece⟩ := string_lexeme rest
    rw [hpiece] at h
    cases h
  split at h
  next =>
    obtain ⟨k, text, after, hpiece⟩ := number_lexeme c rest
    rw [hpiece] at h
    cases h
  split at h
  next => cases h
  split at h
  next comment _ _ _ =>
    cases h
    show (Piece.gap ('/' :: '/' :: (comment ++ '\n' :: more).takeWhile (· != '\n')),
      (comment ++ '\n' :: more).dropWhile (· != '\n')) = _
    rw [takeWhile_line rfl, dropWhile_line rfl]
  next comment _ _ _ =>
    cases h
    have hclosed : ['*', '/'] <:+: comment := by
      rcases splitBlockComment_cases comment with ⟨inside, -, heq⟩ | ⟨hnone, heq⟩
      · refine ⟨inside, (splitBlockComment comment).2, ?_⟩
        rw [← heq]
        exact splitBlockComment_append comment
      · rw [heq] at hopen
        exact (hopen ⟨comment, rfl, hnone⟩).elim
    show (Piece.gap ('/' :: '*' :: (splitBlockComment (comment ++ '\n' :: more)).1),
      (splitBlockComment (comment ++ '\n' :: more)).2) = _
    rw [splitBlockComment_append_of_closed hclosed]
  next =>
    obtain ⟨k, text, after, hpiece⟩ := symbol_lexeme c rest
    rw [hpiece] at h
    cases h

/-- White space is read over. -/
theorem tokensAt_blanks (htext : ∀ c ∈ text, isBlank c) (line : Nat) (cs : List Char) :
    tokensAt line (text ++ cs) = tokensAt (line + lineEnds text) cs := by
  induction text generalizing line with
  | nil => rfl
  | cons c text ih =>
    obtain ⟨hc, htext⟩ := List.forall_mem_cons.1 htext
    have hends : lineEnds (c :: text) = lineEnds [c] + lineEnds text := by
      show ([c] ++ text).count '\n' = _
      exact List.count_append
    rw [List.cons_append, tokensAt_blank hc, ih htext, hends, Nat.add_assoc]

theorem tokensAt_ne_nil (line : Nat) (cs : List Char) : tokensAt line cs ≠ [] := by
  obtain ⟨parts, last, hparts⟩ := tokensAt_partition line cs
  intro h
  have hlength := hparts.length
  rw [h] at hlength
  cases hlength

/-- The tokens of a text that ends with its line are those of the text and of what comes on the next line. -/
theorem tokensAt_line (line : Nat) (cs more : List Char) (hclosed : ∀ piece ∈ pieces cs, ¬ piece.OpenBlock)
    (hlegal : ∀ t ∈ tokensAt line cs, t.kind ≠ .illegal) :
    tokensAt line (cs ++ '\n' :: more) = (tokensAt line cs).dropLast ++ tokensAt (line + lineEnds cs + 1) more := by
  induction h : cs.length using Nat.strongRecOn generalizing line cs with
  | ind n ih =>
    cases cs with
    | nil =>
      rw [List.nil_append, tokensAt_blank rfl, tokensAt_nil]
      rfl
    | cons c rest =>
      subst h
      cases hpiece : firstPiece c rest with
      | mk piece after =>
        have happend := firstPiece_append c rest
        have hlength := firstPiece_length c rest
        rw [hpiece] at happend hlength
        have hends : lineEnds (c :: rest) = lineEnds piece.text + lineEnds after := by
          rw [← happend]
          exact List.count_append
        rw [pieces, hpiece] at hclosed
        obtain ⟨hclosed, hclosed'⟩ := List.forall_mem_cons.1 hclosed
        cases piece with
        | gap text =>
          rw [tokensAt_gap hpiece] at hlegal ⊢
          have hgoal := ih after.length hlength (line + lineEnds text) after hclosed' hlegal rfl
          have hline : line + lineEnds (c :: rest) + 1 = line + lineEnds text + lineEnds after + 1 := by
            rw [hends, ← Nat.add_assoc]
            rfl
          rw [hline, ← hgoal]
          by_cases hc : isBlank c
          · cases (firstPiece_blank hc rest).symm.trans hpiece
            rw [← tokensAt_blanks (List.forall_mem_cons.2 ⟨hc, forall_takeWhile isBlank rest⟩), ← List.append_assoc]
            exact congrArg (fun cs => tokensAt line (cs ++ '\n' :: more)) happend.symm
          · rw [List.cons_append, tokensAt_gap (firstPiece_comment_line (by simpa using hc) hpiece hclosed)]
        | lexeme k text =>
          rw [tokensAt_lexeme hpiece] at hlegal ⊢
          obtain ⟨hk, hlegal⟩ := List.forall_mem_cons.1 hlegal
          have hgoal := ih after.length hlength (line + lineEnds text) after hclosed' hlegal rfl
          have hline : line + lineEnds (c :: rest) + 1 = line + lineEnds text + lineEnds after + 1 := by
            rw [hends, ← Nat.add_assoc]
            rfl
          rw [List.cons_append, tokensAt_lexeme (firstPiece_line hpiece hk), hgoal, hline,
            List.dropLast_cons_of_ne_nil (tokensAt_ne_nil _ _), List.cons_append]

end Scan

end Pron
