import Pron.Proofs.Syntax.Continued
import Pron.Proofs.Token.Lines

/-!
# Programs line by line

A source that is accepted and does not stop short of the end of a statement (`Complete`) can be followed by another one
on the next line: the source of both is accepted, with the statements of both, in order (`parseSource_lines`).
-/

namespace Pron

open Scan

variable {line : String} {lines : List String} {cs : List Char}

/-- A source without errors that ends where a statement does. It does not break off inside of a block comment, and it
has no tokens, or ends with a semicolon, or with the declaration of a function or class. -/
structure Complete (source : String) : Prop where
  errors : (parseSource source).errors = []
  comment : ∀ piece ∈ pieces source.toList, ¬ piece.OpenBlock
  ends : (scan source).dropLast = [] ∨ (scan source).dropLast.getLast?.any (·.kind == .semicolon) ∨
    (parseSource source).program.getLast?.any Stmt.declares

instance (source : String) : Decidable (Complete source) :=
  decidable_of_iff ((parseSource source).errors = [] ∧ (∀ piece ∈ pieces source.toList, ¬ piece.OpenBlock) ∧
      ((scan source).dropLast = [] ∨ (scan source).dropLast.getLast?.any (·.kind == .semicolon) ∨
        (parseSource source).program.getLast?.any Stmt.declares))
    ⟨fun h => ⟨h.1, h.2.1, h.2.2⟩, fun h => ⟨h.errors, h.comment, h.ends⟩⟩

/-! ## Tokens of one source -/

/-- The line on which a source starts has an influence on the lines of its tokens only. -/
theorem tokensFrom_same (pieces : List Piece) (k m : Nat) :
    List.Forall₂ Token.Same (tokensFrom k pieces) (tokensFrom m pieces) := by
  induction pieces generalizing k m with
  | nil => exact .cons ⟨rfl, rfl⟩ .nil
  | cons piece pieces ih =>
    cases piece with
    | gap text => exact ih _ _
    | lexeme kind text => exact .cons ⟨rfl, rfl⟩ (ih _ _)

theorem parse_tokensAt (k : Nat) (source : String) : parse (tokensAt k source.toList) = parseSource source :=
  parse_congr (tokensFrom_same _ 1 k)

/-- The last token of a source, and no other, is `eof`. -/
theorem tokensAt_last (k : Nat) (cs : List Char) :
    ∃ ts e, tokensAt k cs = ts ++ [e] ∧ e.kind = .eof ∧ ∀ t ∈ ts, t.kind ≠ .eof := by
  induction h : cs.length using Nat.strongRecOn generalizing k cs with
  | ind n ih =>
    cases cs with
    | nil => exact ⟨[], .endOfSource k, tokensAt_nil, rfl, nofun⟩
    | cons c rest =>
      subst h
      cases hpiece : firstPiece c rest with
      | mk piece after =>
        have hlength := firstPiece_length c rest
        rw [hpiece] at hlength
        obtain ⟨ts, e, hts, he, hall⟩ := ih after.length hlength (k + lineEnds piece.text) after rfl
        cases piece with
        | gap text => exact ⟨ts, e, by rw [tokensAt_gap hpiece]; exact hts, he, hall⟩
        | lexeme kind text =>
          refine ⟨_ :: ts, e, by rw [tokensAt_lexeme hpiece]; exact congrArg _ hts, he, ?_⟩
          exact List.forall_mem_cons.2 ⟨(firstPiece_lexeme hpiece).ne_eof, hall⟩

/-- What is read of a source without errors is all but its last token, and none of it is illegal. -/
theorem tokensAt_reads (k : Nat) {source : String} (h : (parseSource source).errors = []) :
    ∃ ts e, tokensAt k source.toList = ts ++ [e] ∧
      Grammar.Reads .greedy .statements (ts ++ [e]) (parseSource source).program [e] ∧
      ∀ t ∈ ts ++ [e], t.kind ≠ .illegal := by
  obtain ⟨ts, e, hts, he, hall⟩ := tokensAt_last k source.toList
  have hparse := parse_tokensAt k source
  rw [hts] at hparse
  have haccepted : (parse (ts ++ [e])).errors = [] := hparse ▸ h
  obtain ⟨rest, hreads, hend⟩ := parse_reads haccepted
  obtain ⟨us, hpasses, -⟩ := hreads.passes
  obtain ⟨rfl, -⟩ := hpasses.eq_takeWhile hend
  have hrest : (ts ++ [e]).dropWhile (fun t => t.kind ≠ .eof) = [e] := by
    rw [List.dropWhile_append_of_pos (by simpa using hall), List.dropWhile_cons_of_neg (by simp [he])]
  rw [hrest, hparse] at hreads
  refine ⟨ts, e, hts, hreads, ?_⟩
  obtain ⟨us, ⟨ts', hts', hlegal, -⟩, -⟩ := hreads.passes
  rw [← List.append_cancel_right hts'] at hlegal
  intro t ht
  rcases List.mem_append.1 ht with ht | ht
  · exact (hlegal t ht).2
  · rw [List.mem_singleton.1 ht, he]
    nofun

/-! ## Lines -/

/-- Statements up to the end of a source do not start with a semicolon. -/
theorem Grammar.Reads.kindOf_ne_semicolon {xs rest : List Token} {program : List Stmt}
    (h : Reads .greedy .statements xs program rest) (hrest : Step.kindOf rest = .eof) :
    Step.kindOf xs ≠ .semicolon := by
  cases h with
  | noStatements => rw [hrest]; nofun
  | statements h =>
    have hstarts := h.statement_starts
    intro hk
    rw [hk] at hstarts
    cases hstarts

/-- A complete source ends in the same way, wherever it starts. -/
theorem Complete.ends_at (h : Complete line) {k : Nat} {ts : List Token} {e : Token}
    (hts : tokensAt k line.toList = ts ++ [e]) :
    ts = [] ∨ ts.getLast?.any (·.kind == .semicolon) ∨ (parseSource line).program.getLast?.any Stmt.declares := by
  have hkinds : (scan line).map Token.kind = (ts ++ [e]).map Token.kind := by
    rw [← hts, ← List.forall₂_eq_eq_eq, List.forall₂_map_left_iff, List.forall₂_map_right_iff]
    exact (tokensFrom_same _ 1 k).imp fun _ _ h => h.1.symm
  have hinit : (scan line).dropLast.map Token.kind = ts.map Token.kind := by
    rw [List.map_dropLast, hkinds, ← List.map_dropLast, List.dropLast_concat]
  have hany (us : List Token) :
      us.getLast?.any (·.kind == .semicolon) = (us.map Token.kind).getLast?.any (· == .semicolon) := by
    rw [List.getLast?_map, Option.any_map]
  have hends := h.ends
  rw [hany, hinit, ← hany, ← List.map_eq_nil_iff (f := Token.kind), hinit, List.map_eq_nil_iff] at hends
  exact hends

/-- A complete source in front of the rest of a source. -/
theorem Complete.followed (h : Complete line) (k : Nat) {further : List Stmt} {rest : List Token}
    (hfurther : Grammar.Reads .greedy .statements (tokensAt (k + lineEnds line.toList + 1) cs) further rest)
    (hrest : Step.kindOf rest = .eof) :
    Grammar.Reads .greedy .statements (tokensAt k (line.toList ++ '\n' :: cs)) ((parseSource line).program ++ further)
      rest := by
  obtain ⟨ts, e, hts, hreads, hlegal⟩ := tokensAt_reads k h.errors
  rw [tokensAt_line k line.toList cs h.comment (hts ▸ hlegal), hts, List.dropLast_concat]
  have hbehind : Grammar.behind 1 (tokensAt (k + lineEnds line.toList + 1) cs) (ts ++ [e]) =
      ts ++ tokensAt (k + lineEnds line.toList + 1) cs := by
    rw [Grammar.behind, List.length_append, List.length_singleton, Nat.add_sub_cancel, List.take_left]
  rw [← hbehind]
  refine hreads.statements_followed ?_ (hfurther.kindOf_ne_semicolon hrest) hfurther
  rcases h.ends_at hts with rfl | hlast | hdeclares
  · exact .inl rfl
  · obtain ⟨t, ht, hk⟩ := (Option.any_eq_true _ _).1 hlast
    obtain ⟨us, rfl⟩ := List.getLast?_eq_some_iff.1 ht
    exact .inr (.inl ⟨t, by simpa using hk, us, by simp⟩)
  · exact .inr (.inr hdeclares)

/-- Complete lines are accepted together, and the statements are those of the lines. -/
theorem lines_read (h : ∀ line ∈ lines, Complete line) (k : Nat) :
    ∃ rest, Grammar.Reads .greedy .statements (tokensAt k ("\n".intercalate lines).toList)
      (lines.flatMap fun line => (parseSource line).program) rest ∧ Step.kindOf rest = .eof := by
  induction lines generalizing k with
  | nil =>
    refine ⟨[.endOfSource k], ?_, rfl⟩
    rw [String.intercalate_nil, String.toList_empty, tokensAt_nil]
    exact .noStatements
  | cons line lines ih =>
    obtain ⟨hline, hlines⟩ := List.forall_mem_cons.1 h
    cases lines with
    | nil =>
      have hparse := parse_tokensAt k line
      obtain ⟨rest, hreads, hrest⟩ := parse_reads (hparse ▸ hline.errors)
      rw [hparse] at hreads
      exact ⟨rest, by simpa using hreads, hrest⟩
    | cons line' lines =>
      obtain ⟨rest, hreads, hrest⟩ := ih hlines (k + lineEnds line.toList + 1)
      refine ⟨rest, ?_, hrest⟩
      have hfollowed := hline.followed k hreads hrest
      rw [String.intercalate_cons_cons, String.toList_append, String.toList_append, List.append_assoc]
      exact hfollowed

theorem parseSource_lines (h : ∀ line ∈ lines, Complete line) :
    parseSource ("\n".intercalate lines) = ⟨lines.flatMap fun line => (parseSource line).program, []⟩ := by
  obtain ⟨rest, hreads, hrest⟩ := lines_read h 1
  exact hreads.parse_eq hrest

end Pron
