import Pron.Proofs.Printing
import Pron.Proofs.Syntax.Lines
import Pron.Session.Prompt

/-!
# Sessions at the prompt

Lines that are evaluated one by one do what their texts, put together, do as one program: `session_eq_program`. The
program of all lines has the statements of the lines (`parseSource_lines`), and what a line does is not changed by what
was printed before (`Store.after_block`), so the induction on the lines carries the text printed so far. Lines with
syntax errors leave no trace in a session (`run_filter`).
-/

namespace Pron.Prompt

variable {library : Library} {session : Session} {bytes : List UInt8} {input : List (List UInt8)} {line : String}
  {lines : List String} {v : Value} {values : List Value} {s : Store}

/-- The values of lines that are evaluated one by one; none, if one of them is stopped by an error, or by a `return`
outside of functions. -/
def values? (library : Library) : List String → Session → Option (List Value)
  | [], _ => some []
  | line :: lines, session =>
    match Eval.block (Eval.expr library Session.depth) (parseSource line).program session.frame session.store with
    | .ok v _ => (values? library lines (evalLine library line session).2).map (v :: ·)
    | .error .. => none

/-- The value of the last line that has a statement, or else `last`. -/
def lastValue (last : Value) (lines : List String) (values : List Value) : Value :=
  ((lines.zip values).filter fun p => !(parseSource p.1).program.isEmpty).getLast?.elim last Prod.snd

/-- A line that is answered with syntax errors. -/
def rejected (bytes : List UInt8) : Bool :=
  match Text.decodeUtf8 bytes with
  | .error _ => false
  | .ok line => Text.trim line ≠ quit && !(parseSource line).errors.isEmpty

/-! ## One line -/

theorem run_cons (hline : Text.decodeUtf8 bytes = .ok line) (hquit : Text.trim line ≠ quit) :
    run library (bytes :: input) session =
      { run library input (evalLine library line session).2 with
        responses := (evalLine library line session).1 ::
          (run library input (evalLine library line session).2).responses } := by
  rw [run, hline]
  dsimp only
  rw [if_neg hquit]

theorem run_broken {e : Text.Utf8Error} (hline : Text.decodeUtf8 bytes = .error e) :
    run library (bytes :: input) session = ⟨[], true, session⟩ := by
  rw [run, hline]

theorem run_quit (hline : Text.decodeUtf8 bytes = .ok line) (hquit : Text.trim line = quit) :
    run library (bytes :: input) session = ⟨[], false, session⟩ := by
  rw [run, hline]
  dsimp only
  rw [if_pos hquit]

/-- A line that is evaluated to its end. -/
theorem evalLine_of_ok (herrors : (parseSource line).errors = [])
    (h : Eval.block (Eval.expr library Session.depth) (parseSource line).program session.frame session.store =
      .ok v s) :
    (evalLine library line session).1.printed = s.printed ∧
      (evalLine library line session).2 = ⟨{ s with printed := "" }, session.frame⟩ := by
  have hrun : session.run library (parseSource line).program = (.value v, { session with store := s }) := by
    have hprogram : Eval.program (Eval.expr library Session.depth) (parseSource line).program session.frame
        session.store = .ok v s := by
      rw [Eval.program, Eval.catchReturn, h]
    rw [Session.run, Outcome.of, hprogram]
  rw [evalLine, herrors]
  simp only [List.isEmpty_nil, if_true, hrun]
  exact ⟨rfl, rfl⟩

/-- A line with syntax errors leaves the session as it was. -/
theorem evalLine_rejected (herrors : (parseSource line).errors ≠ []) : (evalLine library line session).2 = session := by
  rw [evalLine, if_neg (by simpa using herrors)]

/-! ## Lines with syntax errors -/

/-- Without the lines that are answered with syntax errors a session is the same, and so are the other answers. -/
theorem run_filter (library : Library) (input : List (List UInt8)) (session : Session) :
    (run library (input.filter fun bytes => !rejected bytes) session).session = (run library input session).session ∧
      (run library (input.filter fun bytes => !rejected bytes) session).broken = (run library input session).broken ∧
      (run library (input.filter fun bytes => !rejected bytes) session).responses =
        ((input.zip (run library input session).responses).filter fun p => !rejected p.1).map Prod.snd := by
  induction input generalizing session with
  | nil => exact ⟨rfl, rfl, rfl⟩
  | cons bytes input ih =>
    cases hline : Text.decodeUtf8 bytes with
    | error e =>
      have hrejected : rejected bytes = false := by rw [rejected, hline]
      rw [List.filter_cons_of_pos (by simp [hrejected]), run_broken hline, run_broken hline, List.zip_nil_right]
      exact ⟨rfl, rfl, rfl⟩
    | ok line =>
      by_cases hquit : Text.trim line = quit
      · have hrejected : rejected bytes = false := by simp [rejected, hline, hquit]
        rw [List.filter_cons_of_pos (by simp [hrejected]), run_quit hline hquit, run_quit hline hquit,
          List.zip_nil_right]
        exact ⟨rfl, rfl, rfl⟩
      · by_cases herrors : (parseSource line).errors = []
        · have hrejected : rejected bytes = false := by simp [rejected, hline, herrors]
          obtain ⟨hsession, hbroken, hresponses⟩ := ih (evalLine library line session).2
          rw [List.filter_cons_of_pos (by simp [hrejected]), run_cons hline hquit, run_cons hline hquit]
          refine ⟨hsession, hbroken, ?_⟩
          rw [List.zip_cons_cons, List.filter_cons_of_pos (by simp [hrejected]), List.map_cons]
          exact congrArg _ hresponses
        · have hrejected : rejected bytes := by simp [rejected, hline, herrors, hquit]
          rw [List.filter_cons_of_neg (by simp [hrejected]), run_cons hline hquit, List.zip_cons_cons,
            List.filter_cons_of_neg (by simp [hrejected]), evalLine_rejected herrors]
          exact ih session

/-! ## Lines without errors -/

section Statements

variable {rec : Expr → FrameId → Eval Value} {last : Value} {body : List Stmt} {E : FrameId} {t : Store}

/-- Statements go on from where the statements before them ended. -/
theorem blockFrom_append (h : Eval.blockFrom rec last body E s = .ok v t) (further : List Stmt) :
    Eval.blockFrom rec last (body ++ further) E s = Eval.blockFrom rec v further E t := by
  induction body generalizing last s with
  | nil =>
    cases h
    rfl
  | cons st body ih =>
    rw [List.cons_append, Eval.blockFrom]
    rw [Eval.blockFrom] at h
    cases hst : Eval.stmt rec st E s with
    | ok u s' =>
      rw [Eval.bind_of_ok hst] at h ⊢
      exact ih h
    | error e s' =>
      rw [Eval.bind_of_error hst] at h
      cases h

/-- The value of statements, if there are any, does not depend on the one before. -/
theorem blockFrom_of_block (h : Eval.block rec body E s = .ok v t) (last : Value) :
    Eval.blockFrom rec last body E s = .ok (if body.isEmpty then last else v) t := by
  cases body with
  | nil =>
    cases h
    rfl
  | cons st body => exact h

end Statements

theorem lastValue_cons (last v : Value) (line : String) (lines : List String) (values : List Value) :
    lastValue last (line :: lines) (v :: values) =
      lastValue (if (parseSource line).program.isEmpty then last else v) lines values := by
  unfold lastValue
  rw [List.zip_cons_cons]
  cases hempty : (parseSource line).program.isEmpty with
  | true => rw [List.filter_cons_of_neg (by simp [hempty]), if_pos rfl]
  | false =>
    rw [List.filter_cons_of_pos (by simp [hempty]), List.getLast?_cons, if_neg nofun]
    cases List.getLast? _ <;> rfl

theorem values_cons (h : values? library (line :: lines) session = some values) :
    ∃ v s vs,
      Eval.block (Eval.expr library Session.depth) (parseSource line).program session.frame session.store = .ok v s ∧
      values? library lines (evalLine library line session).2 = some vs ∧ values = v :: vs := by
  rw [values?] at h
  split at h
  next v s hblock =>
    obtain ⟨vs, hvs, rfl⟩ := Option.map_eq_some_iff.1 h
    exact ⟨v, s, vs, hblock, hvs, rfl⟩
  next => cases h

/-- The statements of lines, run after each other where other texts were printed before. -/
theorem values_block (h : values? library lines session = some values)
    (hinput : List.Forall₂ (fun bytes line => Text.decodeUtf8 bytes = .ok line) input lines)
    (hquit : ∀ line ∈ lines, Text.trim line ≠ quit) (herrors : ∀ line ∈ lines, (parseSource line).errors = [])
    (hprinted : session.store.printed = "") (last : Value) (text : String) :
    let t := run library input session
    t.session.frame = session.frame ∧ t.session.store.printed = "" ∧
      Eval.blockFrom (Eval.expr library Session.depth) last (lines.flatMap fun line => (parseSource line).program)
        session.frame (session.store.after text) =
      .ok (lastValue last lines values) (t.session.store.after (text ++ t.printed)) := by
  induction lines generalizing input session values last text with
  | nil =>
    cases hinput
    cases h
    refine ⟨rfl, hprinted, ?_⟩
    rw [run, Transcript.printed, List.map_nil, String.join_nil, String.append_empty]
    rfl
  | cons line lines ih =>
    cases hinput with
    | cons hline hinput =>
      obtain ⟨v, s, values, hblock, hvalues, rfl⟩ := values_cons h
      obtain ⟨hquit, hquits⟩ := List.forall_mem_cons.1 hquit
      obtain ⟨herror, herrors⟩ := List.forall_mem_cons.1 herrors
      obtain ⟨hanswer, hsession⟩ := evalLine_of_ok herror hblock
      -- the line does the same after the text, and the text grows by what it prints
      have hafter : Eval.block (Eval.expr library Session.depth) (parseSource line).program session.frame
          (session.store.after text) = .ok v (s.after text) := by
        rw [Store.after_block, hblock]
      have hstore : s.after text = (evalLine library line session).2.store.after (text ++ s.printed) := by
        rw [hsession, Store.after, Store.after, String.append_empty]
      obtain ⟨hframe, hclear, hrest⟩ := ih hvalues hinput hquits herrors (by rw [hsession])
        (if (parseSource line).program.isEmpty then last else v) (text ++ s.printed)
      rw [run_cons hline hquit]
      refine ⟨hframe.trans (by rw [hsession]), hclear, ?_⟩
      rw [List.flatMap_cons, blockFrom_append (blockFrom_of_block hafter last), hstore, lastValue_cons,
        Transcript.printed, List.map_cons, String.join_cons, hanswer, ← String.append_assoc]
      rw [hsession] at hrest ⊢
      exact hrest

/-- A session in which every line ends where a statement does, and is evaluated to its end, and the program of all its
lines, run on its own. The program is accepted; it prints the same, leaves the same store and frame, and has the value
of the last line with a statement. In any session, lines with syntax errors change neither what is left nor the answers
to the other lines. -/
theorem session_eq_program (library : Library)
    (hinput : List.Forall₂ (fun bytes line => Text.decodeUtf8 bytes = .ok line) input lines)
    (hquit : ∀ line ∈ lines, Text.trim line ≠ quit) (hcomplete : ∀ line ∈ lines, Complete line)
    (hvalues : values? library lines .start = some values) :
    (parseSource ("\n".intercalate lines)).errors = [] ∧
      (let t := run library input .start;
        Session.start.run library (parseSource ("\n".intercalate lines)).program =
          (.value (lastValue .null lines values),
            { t.session with store := { t.session.store with printed := t.printed } })) ∧
      ∀ (more : List (List UInt8)) (session : Session),
        let t := run library more session
        let t' := run library (more.filter fun bytes => !rejected bytes) session
        t'.session = t.session ∧ t'.broken = t.broken ∧
          t'.responses = ((more.zip t.responses).filter fun p => !rejected p.1).map Prod.snd := by
  rw [parseSource_lines hcomplete]
  refine ⟨rfl, ?_, run_filter library⟩
  obtain ⟨hframe, hclear, hblock⟩ :=
    values_block hvalues hinput hquit (fun line hline => (hcomplete line hline).errors) rfl .null ""
  have hstart : Session.start.store.after "" = Session.start.store := rfl
  have hprogram : Eval.program (Eval.expr library Session.depth) (lines.flatMap fun line => (parseSource line).program)
      Session.start.frame Session.start.store = .ok (lastValue .null lines values)
        ((run library input .start).session.store.after (run library input .start).printed) := by
    rw [hstart, String.empty_append] at hblock
    rw [Eval.program, Eval.catchReturn, Eval.block, hblock]
  rw [Session.run, Outcome.of, hprogram]
  dsimp only
  rw [Store.after, hclear, String.append_empty, ← hframe]

/-- A number, a function that adds to it, nothing but a comment, two calls, and layout. -/
def addingLines : List String :=
  ["var x = 1;", "func f(y) \x7b x + y \x7d /* no semicolon */", "// nothing", "print(f(2)); f(x);", "\t"]

/-- The bytes of these lines. -/
def addingInput : List (List UInt8) := addingLines.map fun line => line.toUTF8.data.toList

theorem addingLines_session :
    List.Forall₂ (fun bytes line => Text.decodeUtf8 bytes = .ok line) addingInput addingLines ∧
      (∀ line ∈ addingLines, Text.trim line ≠ quit) ∧ (∀ line ∈ addingLines, Complete line) ∧
      values? (Library.ofUnits []) addingLines .start = some [.null, .null, .null, .ref ⟨5⟩, .null] ∧
      (parseSource ("\n".intercalate addingLines)).errors = [] ∧
      (let t := run (Library.ofUnits []) addingInput .start;
        Session.start.run (Library.ofUnits []) (parseSource ("\n".intercalate addingLines)).program =
          (.value (.ref ⟨5⟩), { t.session with store := { t.session.store with printed := "3\n" } })) := by
  have hinput : List.Forall₂ (fun bytes line => Text.decodeUtf8 bytes = .ok line) addingInput addingLines := by
    decide +kernel
  have hquit : ∀ line ∈ addingLines, Text.trim line ≠ quit := by decide +kernel
  have hcomplete : ∀ line ∈ addingLines, Complete line := by decide +kernel
  have hvalues : values? (Library.ofUnits []) addingLines .start = some [.null, .null, .null, .ref ⟨5⟩, .null] := by
    decide +kernel
  have hprinted : (run (Library.ofUnits []) addingInput .start).printed = "3\n" := by decide +kernel
  have hlast : lastValue .null addingLines [.null, .null, .null, .ref ⟨5⟩, .null] = .ref ⟨5⟩ := by decide +kernel
  obtain ⟨herrors, hrun, -⟩ := session_eq_program (Library.ofUnits []) hinput hquit hcomplete hvalues
  dsimp only at hrun
  rw [hprinted, hlast] at hrun
  exact ⟨hinput, hquit, hcomplete, hvalues, herrors, hrun⟩

end Pron.Prompt
