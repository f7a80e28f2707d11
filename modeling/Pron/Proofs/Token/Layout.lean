import Pron.Proofs.Syntax.Lockstep
import Pron.Proofs.Token.Partition

/-!
# Layout is insignificant

The lexemes of a source can be laid out anew: with any layout in front of the first one, and behind each of them nothing
more or white space and then any layout (`LaidOut`). The text that results has the tokens of the source but for their
lines, so it is read as the same program with the same errors (`scan_laidOut`). White space ends every lexeme but a
quote that is never closed (`Next.whole`), and layout is read over (`tokensAt_layout`).
-/

namespace Pron

/-- A quote that is not closed. -/
def Piece.OpenQuote (piece : Piece) : Prop := ∃ inside, piece = .lexeme .illegal ('"' :: inside)

instance (piece : Piece) : Decidable piece.OpenQuote :=
  match piece with
  | .lexeme kind text =>
    decidable_of_iff (kind = .illegal ∧ text.head? = some '"') (by
      constructor
      · rintro ⟨rfl, htext⟩
        obtain ⟨inside, rfl⟩ := List.head?_eq_some_iff.1 htext
        exact ⟨inside, rfl⟩
      · rintro ⟨inside, heq⟩
        cases heq
        exact ⟨rfl, rfl⟩)
  | .gap _ => isFalse nofun

/-- The kind and the text of a lexeme. -/
def Piece.lexeme? : Piece → Option (TokenKind × List Char)
  | gap _ => none
  | lexeme kind text => some (kind, text)

namespace Scan

variable {c : Char} {k : TokenKind} {text gap inside cs rest behind : List Char} {texts : List (List Char)}

/-- The lexemes of a source, in order. -/
def lexemes (source : List Char) : List (TokenKind × List Char) := (pieces source).filterMap Piece.lexeme?

/-- Nothing, or a text that begins with white space. -/
def Spaced (cs : List Char) : Prop := ∀ c ∈ cs.head?, isBlank c

/-- The texts of some lexemes in order, laid out: any layout may stand in front of the first one and behind the last
one; behind a lexeme, white space has to come first if anything comes. -/
inductive LaidOut : List (List Char) → List Char → Prop
  | last {gap : List Char} : Layout gap → LaidOut [] gap
  | lexeme {gap text cs : List Char} {texts : List (List Char)} : Layout gap → Spaced cs → LaidOut texts cs →
      LaidOut (text :: texts) (gap ++ text ++ cs)

/-! ## Layout is read over -/

theorem lineEnds_append (a b : List Char) : lineEnds (a ++ b) = lineEnds a + lineEnds b := List.count_append

/-- A block comment that is closed ends where it is closed first. -/
theorem splitBlockComment_closed (h : ¬ ['*', '/'] <:+: inside ++ ['*']) (rest : List Char) :
    splitBlockComment (inside ++ '*' :: '/' :: rest) = (inside ++ ['*', '/'], rest) := by
  induction inside with
  | nil => rfl
  | cons c inside ih =>
    rw [List.cons_append, List.infix_cons_iff, not_or] at h
    obtain ⟨hstart, hinside⟩ := h
    rw [List.cons_append, splitBlockComment, ih hinside]
    · rfl
    · rintro behind rfl heq
      cases inside with
      | nil => cases heq
      | cons d inside =>
        cases (List.cons.inj heq).1
        exact hstart ⟨inside ++ ['*'], rfl⟩

/-- Layout in front of a source gives no tokens. -/
theorem tokensAt_layout (h : Layout gap) (line : Nat) (cs : List Char) :
    tokensAt line (gap ++ cs) = tokensAt (line + lineEnds gap) cs := by
  induction h generalizing line with
  | nil => rfl
  | @blank c gap hc _ ih =>
    have hends : lineEnds (c :: gap) = lineEnds [c] + lineEnds gap := lineEnds_append [c] gap
    rw [List.cons_append, tokensAt_blank hc, ih, hends, Nat.add_assoc]
  | @line comment gap hcomment _ ih =>
    have hends : ∀ d ∈ comment, (d != '\n') = true := fun d hd => bne_iff_ne.2 fun heq => hcomment (heq ▸ hd)
    have hstops : Stops (· != '\n') ('\n' :: (gap ++ cs)) := .cons rfl
    have hpiece : firstPiece '/' ('/' :: (comment ++ '\n' :: (gap ++ cs))) =
        (.gap ('/' :: '/' :: comment), '\n' :: (gap ++ cs)) := by
      show (Piece.gap ('/' :: '/' :: List.takeWhile _ _), List.dropWhile _ _) = _
      rw [takeWhile_append hends hstops, dropWhile_append hends hstops]
    have hgap : '/' :: '/' :: comment ++ '\n' :: gap ++ cs = '/' :: '/' :: (comment ++ '\n' :: (gap ++ cs)) := by simp
    rw [hgap, tokensAt_gap hpiece, lineEnds_append, ← Nat.add_assoc]
    exact ih _
  | @block inside gap hinside _ ih =>
    have hpiece : firstPiece '/' ('*' :: (inside ++ '*' :: '/' :: (gap ++ cs))) =
        (.gap ('/' :: '*' :: (inside ++ ['*', '/'])), gap ++ cs) := by
      show (Piece.gap ('/' :: '*' :: (splitBlockComment _).1), (splitBlockComment _).2) = _
      rw [splitBlockComment_closed hinside]
    have hgap : '/' :: '*' :: inside ++ '*' :: '/' :: gap =
        '/' :: '*' :: (inside ++ ['*', '/']) ++ gap := by simp
    have hcs : '/' :: '*' :: inside ++ '*' :: '/' :: gap ++ cs =
        '/' :: '*' :: (inside ++ '*' :: '/' :: (gap ++ cs)) := by simp
    rw [hcs, tokensAt_gap hpiece, ih, hgap, lineEnds_append, Nat.add_assoc]

/-! ## White space ends a lexeme -/

/-- A lexeme that is cut off alike in front of all white space, and at the end. -/
def Whole (k : TokenKind) (text : List Char) : Prop :=
  ∃ c inside, text = c :: inside ∧ ∀ cs, Spaced cs → firstPiece c (inside ++ cs) = (.lexeme k text, cs)

/-- White space is in none of the classes that make words, numbers or operators longer. -/
theorem isBlank_classes (h : isBlank c) :
    continuesWord c = false ∧ c.isDigit = false ∧ c ≠ '.' ∧ c ≠ '/' ∧ c ≠ '*' ∧ ∀ d, doubleKind d c = none := by
  simp only [isBlank, Bool.or_eq_true, beq_iff_eq] at h
  have hdouble (d e : Char) (hplus : e ≠ '+') (hminus : e ≠ '-') (heq : e ≠ '=') : doubleKind d e = none := by
    unfold doubleKind
    split <;> first | rfl | contradiction
  rcases h with ((rfl | rfl) | rfl) | rfl
  all_goals
    exact ⟨rfl, rfl, by decide, by decide, by decide, fun d => hdouble d _ (by decide) (by decide) (by decide)⟩

theorem Spaced.stops {p : Char → Bool} (hcs : Spaced cs) (hp : ∀ c, isBlank c → p c = false) : Stops p cs :=
  fun c hc => hp c (hcs c hc)

theorem IsLexeme.whole (h : IsLexeme k text) : Whole k text := by
  cases h with
  | @word c text hc htext =>
    exact ⟨c, text, rfl, fun cs hcs => firstPiece_ofWord hc htext (hcs.stops fun d hd => (isBlank_classes hd).1)⟩
  | int h =>
    obtain ⟨hne, hdigits⟩ := h
    cases text with
    | nil => exact absurd rfl hne
    | cons c text =>
      refine ⟨c, text, rfl, fun cs hcs => firstPiece_digits hdigits (hcs.stops fun d hd => ?_)⟩
      rw [(isBlank_classes hd).2.1, beq_eq_false_iff_ne.2 (isBlank_classes hd).2.2.1]
      rfl
  | real h =>
    obtain ⟨whole, fraction, rfl, ⟨hwhole, hdigits⟩, hfraction, hdecimals⟩ := h
    cases whole with
    | nil => exact absurd rfl hwhole
    | cons c whole =>
      cases fraction with
      | nil => exact absurd rfl hfraction
      | cons d fraction =>
        refine ⟨c, whole ++ '.' :: d :: fraction, rfl, fun cs hcs => ?_⟩
        rw [List.append_assoc]
        exact firstPiece_decimal hdigits hdecimals (hcs.stops fun d hd => (isBlank_classes hd).2.1)
  | @str inside hinside =>
    refine ⟨'"', inside ++ ['"'], rfl, fun cs _ => ?_⟩
    rw [List.append_assoc]
    exact firstPiece_string hinside cs
  | @single c k hk =>
    refine ⟨c, [], rfl, fun cs hcs => firstPiece_single hk fun d hd => ?_⟩
    obtain ⟨-, -, -, hslash, hstar, hdouble⟩ := isBlank_classes (hcs d hd)
    exact ⟨hdouble c, fun _ => ⟨hslash, hstar⟩⟩
  | @double c d k hk => exact ⟨c, [d], rfl, fun cs _ => firstPiece_double hk cs⟩

/-- White space ends every lexeme but an open quote. -/
theorem Next.whole (h : Next k text behind) (hclosed : ¬ (Piece.lexeme k text).OpenQuote) : Whole k text := by
  cases h with
  | lexeme h => exact h.whole
  | @stray c _ hblank hquote hnone =>
    have hnone {kind : TokenKind} {text : List Char} (h : IsLexeme kind text) (hstart : text <+: c :: behind) : False :=
      h.ne_nil (List.length_eq_zero_iff.1 (Nat.le_zero.1 (hnone kind text h hstart)))
    have hone {kind : TokenKind} (h : IsLexeme kind [c]) : False := hnone h ⟨behind, rfl⟩
    have hdigit : c.isDigit = false := by
      rw [← Bool.not_eq_true]
      exact fun hdigit => hone (.int ⟨nofun, List.forall_mem_singleton.2 hdigit⟩)
    have hword : startsWord c = false := by
      rw [← Bool.not_eq_true]
      exact fun hword => hone (.word hword nofun)
    have hsingle : singleKind c = none := by
      rw [Option.eq_none_iff_forall_ne_some]
      exact fun kind hkind => hone (.single hkind)
    exact ⟨c, [], rfl, fun cs _ => firstPiece_stray hblank hquote hdigit hword hsingle⟩
  | @openQuote inside _ => exact absurd ⟨inside, rfl⟩ hclosed

theorem next_of_mem_pieces (h : .lexeme k text ∈ pieces cs) : ∃ behind, Next k text behind := by
  fun_induction pieces cs with
  | case1 => cases h
  | case2 c rest ih =>
    rcases List.mem_cons.1 h with hfirst | hrest
    · exact ⟨_, firstPiece_lexeme (Prod.ext hfirst.symm rfl)⟩
    · exact ih hrest

/-! ## Tokens without lines -/

/-- The kind and the literal of a token. -/
def unplaced (t : Token) : TokenKind × String := (t.kind, t.literal)

/-- Lexemes as tokens, with the end of the source behind them. -/
def unplacedTokens (ls : List (TokenKind × List Char)) : List (TokenKind × String) :=
  ls.map (fun l => (l.1, literal l.1 l.2)) ++ [(.eof, "")]

/-- Without their lines the tokens are those of the lexemes. -/
theorem tokensFrom_unplaced (line : Nat) (ps : List Piece) :
    (tokensFrom line ps).map unplaced = unplacedTokens (ps.filterMap Piece.lexeme?) := by
  induction ps generalizing line with
  | nil => rfl
  | cons piece ps ih =>
    cases piece with
    | gap text => exact ih _
    | lexeme kind text => exact congrArg _ (ih _)

/-- The tokens of lexemes do not depend on how they are laid out. -/
theorem tokensAt_laidOut {ls : List (TokenKind × List Char)} (hls : ∀ l ∈ ls, Whole l.1 l.2)
    (h : LaidOut (ls.map Prod.snd) cs) (line : Nat) : (tokensAt line cs).map unplaced = unplacedTokens ls := by
  induction ls generalizing cs line with
  | nil =>
    cases h with
    | last hgap =>
      have hlayout := tokensAt_layout hgap line []
      rw [List.append_nil] at hlayout
      rw [hlayout, tokensAt_nil]
      rfl
  | cons l ls ih =>
    obtain ⟨kind, text⟩ := l
    obtain ⟨⟨c, inside, heq, hpiece⟩, hrest⟩ := List.forall_mem_cons.1 hls
    cases h with
    | @lexeme gap _ cs _ hgap hcs h =>
      dsimp only at heq hpiece ⊢
      subst heq
      rw [List.append_assoc, tokensAt_layout hgap, List.cons_append, tokensAt_lexeme (hpiece cs hcs), List.map_cons,
        ih hrest h]
      rfl

/-- Tokens without their lines are what the parser looks at. -/
theorem same_of_unplaced {ts us : List Token} (h : us.map unplaced = ts.map unplaced) :
    List.Forall₂ Token.Same ts us := by
  rw [← List.forall₂_eq_eq_eq, List.forall₂_map_left_iff, List.forall₂_map_right_iff] at h
  exact h.flip.imp fun t u heq => ⟨congrArg Prod.fst heq, congrArg Prod.snd heq⟩

/-! ## Single spaces -/

theorem LaidOut.blank (hc : isBlank c) (h : LaidOut texts cs) : LaidOut texts (c :: cs) := by
  cases h with
  | last hgap => exact .last (.blank hc hgap)
  | lexeme hgap hcs h => exact .lexeme (.blank hc hgap) hcs h

/-- Lexemes with single spaces between them. -/
theorem laidOut_spaces (texts : List (List Char)) :
    LaidOut texts (" ".intercalate (texts.map String.ofList)).toList := by
  induction texts with
  | nil => exact .last .nil
  | cons text texts ih =>
    cases texts with
    | nil =>
      have hnil : Spaced [] := nofun
      have hone : LaidOut [text] ([] ++ text ++ []) := .lexeme .nil hnil (.last .nil)
      simpa using hone
    | cons next texts =>
      rw [List.map_cons] at ih
      rw [List.map_cons, List.map_cons, String.intercalate_cons_cons, String.toList_append, String.toList_append,
        String.toList_ofList, List.append_assoc]
      have hspaced : Spaced (' ' :: (" ".intercalate (String.ofList next :: texts.map String.ofList)).toList) := by
        rintro _ ⟨⟩
        rfl
      exact .lexeme .nil hspaced (ih.blank rfl)

end Scan

open Scan

/-- **Layout is insignificant.** The lexemes of a source without an open quote, laid out in any way, have the tokens of
the source but for their lines, and are read as the same program with the same errors. With single spaces between them
they have these tokens as well. -/
theorem scan_laidOut {source : String} (hclosed : ∀ piece ∈ pieces source.toList, ¬ piece.OpenQuote) {cs : List Char}
    (h : LaidOut ((lexemes source.toList).map Prod.snd) cs) :
    List.Forall₂ Token.Same (scan source) (scan (String.ofList cs)) ∧
      parseSource (String.ofList cs) = parseSource source ∧
      List.Forall₂ Token.Same (scan source)
        (scan (" ".intercalate ((lexemes source.toList).map fun l => String.ofList l.2))) := by
  have hwhole : ∀ l ∈ lexemes source.toList, Whole l.1 l.2 := by
    intro l hl
    obtain ⟨piece, hpiece, hlexeme⟩ := List.mem_filterMap.1 hl
    cases piece with
    | gap => cases hlexeme
    | lexeme kind text =>
      cases hlexeme
      obtain ⟨behind, hnext⟩ := next_of_mem_pieces hpiece
      exact hnext.whole (hclosed _ hpiece)
  have hsame (text : String) (h : LaidOut ((lexemes source.toList).map Prod.snd) text.toList) :
      List.Forall₂ Token.Same (scan source) (scan text) :=
    same_of_unplaced ((tokensAt_laidOut hwhole h 1).trans (tokensFrom_unplaced 1 _).symm)
  have hcs := hsame (String.ofList cs) (by rwa [String.toList_ofList])
  refine ⟨hcs, parse_congr hcs, hsame _ ?_⟩
  have hspaces := laidOut_spaces ((lexemes source.toList).map Prod.snd)
  rwa [List.map_map] at hspaces

/-- Lexemes of which some would run together, and one would start a comment, with other layout between them. -/
def tightSource : String := "x/2.5+ +\"//\""

theorem tightSource_laidOut :
    (∀ piece ∈ pieces tightSource.toList, ¬ piece.OpenQuote) ∧
      LaidOut ((lexemes tightSource.toList).map Prod.snd) "\tx / /*/*/2.5\n+ //+\n+\r\"//\" /***/".toList ∧
      List.Forall₂ Token.Same (scan tightSource)
        (scan (String.ofList "\tx / /*/*/2.5\n+ //+\n+\r\"//\" /***/".toList)) := by
  have hclosed : ∀ piece ∈ pieces tightSource.toList, ¬ piece.OpenQuote := by decide +kernel
  have hlexemes : (lexemes tightSource.toList).map Prod.snd =
      [['x'], ['/'], ['2', '.', '5'], ['+'], ['+'], ['"', '/', '/', '"']] := by decide +kernel
  have htext : "\tx / /*/*/2.5\n+ //+\n+\r\"//\" /***/".toList =
      ['\t'] ++ ['x'] ++ ([' '] ++ ['/'] ++ ([' ', '/', '*', '/', '*', '/'] ++ ['2', '.', '5'] ++ (['\n'] ++ ['+'] ++
        ([' ', '/', '/', '+', '\n'] ++ ['+'] ++ (['\r'] ++ ['"', '/', '/', '"'] ++
          [' ', '/', '*', '*', '*', '/']))))) :=
    by decide +kernel
  have hspaced {c : Char} {cs : List Char} (hc : isBlank c) : Spaced (c :: cs) := by
    rintro _ ⟨⟩
    exact hc
  have hlast : Layout [' ', '/', '*', '*', '*', '/'] := .blank rfl (@Layout.block ['*'] [] (by decide) .nil)
  have hslashes : Layout [' ', '/', '*', '/', '*', '/'] := .blank rfl (@Layout.block ['/'] [] (by decide) .nil)
  have hline : Layout [' ', '/', '/', '+', '\n'] := .blank rfl (@Layout.line ['+'] [] (by decide) (.blank rfl .nil))
  have hlaid : LaidOut ((lexemes tightSource.toList).map Prod.snd) "\tx / /*/*/2.5\n+ //+\n+\r\"//\" /***/".toList := by
    rw [hlexemes, htext]
    exact .lexeme (.blank rfl .nil) (hspaced rfl) (.lexeme (.blank rfl .nil) (hspaced rfl)
      (.lexeme hslashes (hspaced rfl) (.lexeme (.blank rfl .nil) (hspaced rfl)
        (.lexeme hline (hspaced rfl) (.lexeme (.blank rfl .nil) (hspaced rfl) (.last hlast))))))
  exact ⟨hclosed, hlaid, (scan_laidOut hclosed hlaid).1⟩

end Pron
