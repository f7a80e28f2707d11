import Pron.Proofs.Token.ByteScan
import Pron.Proofs.Token.Longest

/-!
# The source, cut into layout and lexemes

A source is a sequence of parts, each some layout and the lexeme behind it, with layout at the end:
`tokensAt_partition`. Its tokens are those of the lexemes, in order, and one `eof`. A token has the line reached by all
the text before it. Together with what the scanner of bytes does this is `scan_lossless`.
-/

namespace Pron

namespace Scan

variable {c : Char} {k : TokenKind} {text cs rest after : List Char}

/-! ## The first piece -/

theorem firstPiece_lexeme (h : firstPiece c rest = (.lexeme k text, after)) : Next k text after := by
  unfold firstPiece at h
  split at h
  next => cases h
  next hblank =>
  split at h
  next => exact next_of_string h
  next hquote =>
  split at h
  next hdigit => exact next_of_number hdigit h
  next hdigit =>
  split at h
  next hword =>
    cases h
    exact next_of_word hword
  next hword =>
  split at h
  next => cases h
  next => cases h
  next hline hblock =>
    refine next_of_symbol (by simpa using hblank) (by simpa using hquote) (by simpa using hdigit) (by simpa using hword)
      ?_ h
    rintro (hstart | hstart)
    · obtain ⟨behind, heq⟩ := hstart
      cases heq
      exact hline behind rfl rfl
    · obtain ⟨behind, heq⟩ := hstart
      cases heq
      exact hblock behind rfl rfl

theorem not_infix_cons (hrest : ¬ ['*', '/'] <:+: rest) (hstart : c = '*' → rest.head? ≠ some '/') :
    ¬ ['*', '/'] <:+: c :: rest := by
  rw [List.infix_cons_iff]
  rintro (h | h)
  · obtain ⟨rfl, behind, rfl⟩ := List.cons_prefix_cons.1 h
    exact hstart rfl rfl
  · exact hrest h

/-- A block comment ends with the first `*/`, or is not closed at all. -/
theorem splitBlockComment_cases (cs : List Char) :
    (∃ inside, ¬ ['*', '/'] <:+: inside ++ ['*'] ∧ (splitBlockComment cs).1 = inside ++ ['*', '/']) ∨
      (¬ ['*', '/'] <:+: cs ∧ splitBlockComment cs = (cs, [])) := by
  fun_induction splitBlockComment cs with
  | case1 rest =>
    refine .inl ⟨[], ?_, rfl⟩
    intro h
    cases Nat.not_succ_le_self 1 h.length_le
  | case2 c rest hother inside after hsplit ih =>
    have hrest : inside ++ after = rest := by
      have := splitBlockComment_append rest
      rwa [hsplit] at this
    have hstart (hc : c = '*') : rest.head? ≠ some '/' := by
      intro hhead
      cases rest with
      | nil => cases hhead
      | cons d rest =>
        cases hhead
        exact hother rest hc rfl
    rw [hsplit] at ih
    rcases ih with ⟨inside, hinside, rfl⟩ | ⟨hnone, heq⟩
    · refine .inl ⟨c :: inside, not_infix_cons hinside fun hc hhead => hstart hc ?_, rfl⟩
      rw [← hrest]
      cases inside with
      | nil => cases hhead
      | cons d inside => exact hhead
    · cases heq
      exact .inr ⟨not_infix_cons hnone hstart, rfl⟩
  | case3 =>
    refine .inr ⟨?_, rfl⟩
    intro h
    cases h.length_le

/-- What is behind a line comment is the end of its line, or the end of the source. -/
theorem lineComment_end (cs : List Char) :
    cs.dropWhile (· != '\n') = [] ∨ ∃ behind, cs.dropWhile (· != '\n') = '\n' :: behind := by
  cases heq : cs.dropWhile (· != '\n') with
  | nil => exact .inl rfl
  | cons d behind =>
    have hd := List.head?_dropWhile_not (· != '\n') cs
    rw [heq] at hd
    have hd : d = '\n' := by simpa using hd
    exact .inr ⟨behind, by rw [hd]⟩

/-- Layout that the source goes on from: the line end behind a line comment is part of what follows. -/
def Opens (text after : List Char) : Prop :=
  Layout text ∨ ∃ comment behind, '\n' ∉ comment ∧ text = '/' :: '/' :: comment ∧ after = '\n' :: behind

/-- A gap is layout before the rest of the source, or a comment that is left open. -/
theorem firstPiece_gap (h : firstPiece c rest = (.gap text, after)) :
    Opens text after ∨ (OpenComment text ∧ after = []) := by
  unfold firstPiece at h
  split at h
  next hblank =>
    cases h
    exact .inl (.inl (.of_blanks (List.forall_mem_cons.2 ⟨hblank, forall_takeWhile isBlank rest⟩)))
  split at h
  next =>
    unfold string at h
    split at h
    all_goals cases h
  split at h
  next =>
    unfold number at h
    split at h
    · split at h
      all_goals cases h
    · cases h
  split at h
  next => cases h
  split at h
  next comment _ _ _ _ =>
    cases h
    have hcomment : '\n' ∉ comment.takeWhile (· != '\n') := by
      intro hmem
      cases forall_takeWhile _ _ _ hmem
    rcases lineComment_end comment with heq | ⟨behind, heq⟩
    · exact .inr ⟨.line hcomment, heq⟩
    · exact .inl (.inr ⟨_, behind, hcomment, rfl, heq⟩)
  next inside _ _ _ _ =>
    cases h
    rcases splitBlockComment_cases inside with ⟨before, hbefore, heq⟩ | ⟨hnone, heq⟩
    · rw [heq]
      exact .inl (.inl (.block hbefore .nil))
    · rw [heq]
      exact .inr ⟨.block hnone, rfl⟩
  next =>
    unfold symbol at h
    split at h
    · split at h
      all_goals cases h
    · cases h

/-- No lexeme starts with a line end. -/
theorem Next.head_ne (h : Next k text after) (behind : List Char) : (text ++ behind).head? ≠ some '\n' := by
  cases text with
  | nil =>
    cases h with
    | lexeme h => exact absurd rfl h.ne_nil
  | cons c text =>
    intro hhead
    cases hhead
    cases h with
    | lexeme h =>
      rcases h.shape with ⟨hc, -⟩ | ⟨hc, -⟩ | ⟨hc, -⟩ | ⟨⟨_, hc⟩, -⟩
      all_goals cases hc
    | stray hblank => cases hblank

theorem Opens.layout {gap behind : List Char} (h : Opens text (gap ++ behind)) (hgap : Layout gap)
    (hbehind : behind.head? ≠ some '\n') : Layout (text ++ gap) := by
  rcases h with h | ⟨comment, rest, hcomment, rfl, heq⟩
  · exact h.append hgap
  · cases gap with
    | nil =>
      rw [List.nil_append] at heq
      exact absurd (by rw [heq]; rfl) hbehind
    | cons d gap =>
      cases heq
      exact .line hcomment hgap

theorem Opens.last (h : Opens text after) (hlast : LastLayout after) : LastLayout (text ++ after) := by
  obtain ⟨gap, comment, rfl, hgap, hcomment⟩ := hlast
  refine ⟨text ++ gap, comment, (List.append_assoc ..).symm, h.layout hgap ?_, hcomment⟩
  cases hcomment with
  | none => nofun
  | _ => simp

end Scan

/-! ## Parts -/

/-- A lexeme with the layout before it. -/
structure Part where
  gap : List Char
  kind : TokenKind
  lexeme : List Char

/-- The source text of a part. -/
def Part.text (p : Part) : List Char := p.gap ++ p.lexeme

/-- The number of LF bytes in a text. -/
def lineFeeds (text : List Char) : Nat := (encode text).count 10

/-- The token of a part, on the line that the given text reaches. -/
def Part.token (p : Part) (line : Nat) (before : List Char) : Token :=
  ⟨p.kind, Scan.literal p.kind p.lexeme, line + lineFeeds before⟩

/-- The source `cs`, which starts on the given line, is the parts and the layout behind them; every part ends where the
longest lexeme behind its gap does. The tokens are those of the parts, and one `eof`. -/
structure Partition (line : Nat) (cs : List Char) (tokens : List Token) (parts : List Part)
    (last : List Char) : Prop where
  source : cs = parts.flatMap Part.text ++ last
  layout : Scan.LastLayout last
  part : ∀ front p back, parts = front ++ p :: back →
    Scan.Layout p.gap ∧ Scan.Next p.kind p.lexeme (back.flatMap Part.text ++ last) ∧
      tokens[front.length]? = some (p.token line (front.flatMap Part.text ++ p.gap))
  eof : tokens[parts.length]? = some (.endOfSource (line + lineFeeds cs))
  length : tokens.length = parts.length + 1

namespace Partition

open Scan Encoding

variable {line : Nat} {cs text after last : List Char} {k : TokenKind} {tokens : List Token} {parts : List Part}

theorem lineFeeds_append (a b : List Char) : lineFeeds (a ++ b) = lineFeeds a + lineFeeds b := by
  rw [lineFeeds, encode_append, List.count_append]
  rfl

/-- A part is on the same line, whether the text before it is counted at once or in two pieces. -/
theorem token_append (p : Part) (line : Nat) (a b : List Char) :
    p.token (line + lineFeeds a) b = p.token line (a ++ b) := by
  rw [Part.token, Part.token, lineFeeds_append, Nat.add_assoc]

theorem nil (line : Nat) : Partition line [] [.endOfSource line] [] [] where
  source := rfl
  layout := ⟨[], [], rfl, .nil, .none⟩
  part front p back h := by simp at h
  eof := rfl
  length := rfl

/-- An open comment is layout at the end. -/
theorem openComment (line : Nat) (h : OpenComment text) :
    Partition line text [.endOfSource (line + lineFeeds text)] [] text where
  source := rfl
  layout := ⟨[], text, rfl, .nil, h⟩
  part front p back h := by simp at h
  eof := rfl
  length := rfl

/-- A lexeme is a part of its own. -/
theorem lexeme (hnext : Next k text after) (h : Partition (line + lineFeeds text) after tokens parts last) :
    Partition line (text ++ after) (⟨k, literal k text, line⟩ :: tokens) (⟨[], k, text⟩ :: parts) last where
  source := by
    rw [h.source, List.flatMap_cons, List.append_assoc]
    rfl
  layout := h.layout
  part front p back heq := by
    cases front with
    | nil =>
      cases heq
      rw [← h.source]
      exact ⟨.nil, hnext, rfl⟩
    | cons q front =>
      cases heq
      obtain ⟨hgap, hnext, htoken⟩ := h.part front p back rfl
      refine ⟨hgap, hnext, ?_⟩
      rw [List.length_cons, List.getElem?_cons_succ, htoken, token_append, List.flatMap_cons, List.append_assoc]
      rfl
  eof := by
    rw [List.length_cons, List.getElem?_cons_succ, h.eof, lineFeeds_append, Nat.add_assoc]
  length := by rw [List.length_cons, List.length_cons, h.length]

/-- A gap goes to the first part, or to the layout at the end. -/
theorem gap (hopens : Opens text after) (h : Partition (line + lineFeeds text) after tokens parts last) :
    ∃ parts last, Partition line (text ++ after) tokens parts last := by
  have heof : line + lineFeeds text + lineFeeds after = line + lineFeeds (text ++ after) := by
    rw [lineFeeds_append, Nat.add_assoc]
  cases parts with
  | nil =>
    have hafter : after = last := h.source
    refine ⟨[], text ++ last, ?_⟩
    subst hafter
    exact { source := rfl, layout := hopens.last h.layout, part := fun front p back heq => by simp at heq,
            eof := by rw [← heof]; exact h.eof, length := h.length }
  | cons p parts =>
    refine ⟨⟨text ++ p.gap, p.kind, p.lexeme⟩ :: parts, last, ?_⟩
    refine { source := ?_, layout := h.layout, part := ?_, eof := by rw [← heof]; exact h.eof, length := h.length }
    · rw [h.source]
      simp [Part.text]
    · intro front q back heq
      cases front with
      | nil =>
        cases heq
        obtain ⟨hgap, hnext, htoken⟩ := h.part [] p parts rfl
        have hafter : after = p.gap ++ (p.lexeme ++ (parts.flatMap Part.text ++ last)) := by
          rw [h.source]
          simp [Part.text]
        rw [hafter] at hopens
        refine ⟨hopens.layout hgap (hnext.head_ne _), hnext, ?_⟩
        rw [htoken, List.flatMap_nil, token_append]
        rfl
      | cons q front =>
        cases heq
        obtain ⟨hgap, hnext, htoken⟩ := h.part (p :: front) _ _ rfl
        refine ⟨hgap, hnext, ?_⟩
        rw [List.length_cons, ← List.length_cons, htoken, token_append]
        simp [Part.text]

end Partition

open Scan Encoding in
/-- The tokens of any text are cut off one after the other, each as long as it can be. -/
theorem tokensAt_partition (line : Nat) (cs : List Char) :
    ∃ parts last, Partition line cs (tokensAt line cs) parts last := by
  induction h : cs.length using Nat.strongRecOn generalizing line cs with
  | ind n ih =>
    cases cs with
    | nil =>
      rw [tokensAt_nil]
      exact ⟨[], [], .nil line⟩
    | cons c rest =>
      subst h
      have happend := firstPiece_append c rest
      have hlength := firstPiece_length c rest
      cases hpiece : firstPiece c rest with
      | mk piece after =>
        rw [hpiece] at happend hlength
        cases piece with
        | gap text =>
          have hline : lineEnds text = lineFeeds text := (count_encode text).symm
          rw [tokensAt_gap hpiece, ← happend, hline]
          rcases firstPiece_gap hpiece with hopens | ⟨hopen, rfl⟩
          · obtain ⟨parts, last, hparts⟩ := ih after.length hlength (line + lineFeeds text) after rfl
            exact hparts.gap hopens
          · rw [tokensAt_nil, List.append_nil]
            exact ⟨[], text, .openComment line hopen⟩
        | lexeme kind text =>
          have hline : lineEnds text = lineFeeds text := (count_encode text).symm
          rw [tokensAt_lexeme hpiece, ← happend, hline]
          obtain ⟨parts, last, hparts⟩ := ih after.length hlength (line + lineFeeds text) after rfl
          exact ⟨_, last, hparts.lexeme (firstPiece_lexeme hpiece)⟩

theorem Scan.Next.ne_eof {k : TokenKind} {text behind : List Char} (h : Scan.Next k text behind) : k ≠ .eof := by
  cases h with
  | lexeme h =>
    cases h with
    | word =>
      have hkinds : ∀ k ∈ TokenKind.ident :: TokenKind.keywords.map Prod.snd, k ≠ .eof := by decide
      exact hkinds _ (Scan.ofWord_mem _)
    | single hk =>
      unfold Scan.singleKind at hk
      split at hk
      case h_20 => cases hk
      all_goals
        cases hk
        decide
    | double hk =>
      unfold Scan.doubleKind at hk
      split at hk
      case h_5 => cases hk
      all_goals
        cases hk
        decide
    | _ => decide
  | _ => decide

/-- The scanner loses nothing. The bytes are read without an index out of range or a cut character, and the calls give
the tokens and nothing behind them. The tokens are those of the parts of the source, none of them `eof`, and one `eof`.
-/
theorem scan_lossless (source : String) :
    (∀ n, (ByteScanner.new source).call n = some (scan source)[n]?) ∧
      ∃ parts last, Partition 1 source.toList (scan source) parts last ∧ ∀ p ∈ parts, p.kind ≠ .eof := by
  obtain ⟨parts, last, hparts⟩ := tokensAt_partition 1 source.toList
  refine ⟨ByteScanner.call_eq source, parts, last, hparts, fun p hp => ?_⟩
  obtain ⟨front, back, heq⟩ := List.append_of_mem hp
  exact (hparts.part front p back heq).2.1.ne_eof

end Pron
