import Pron.Proofs.Syntax.Completeness
import Pron.Proofs.Syntax.Lockstep
import Pron.Proofs.Syntax.Soundness

/-!
# Other tokens behind a phrase

A derivation looks at the token behind a phrase, and at no token after that. So when at least one token stays there, the
tokens after it can be replaced by others (`Grammar.Reads.behind`).
-/

namespace Pron

/-- A statement that declares a function or a class. -/
def Stmt.declares : Stmt → Bool
  | .function _ | .classDecl _ => true
  | _ => false

namespace Grammar

open Step (kindOf)

/-- The tokens with the last `m` of them replaced by `es`. -/
def behind (m : Nat) (es xs : List Token) : List Token := xs.take (xs.length - m) ++ es

section Behind

variable {α : Type} {rules : Rules} {k : TokenKind} {x : String} {m : Nat} {t : Token} {es xs ys : List Token}

/-- Tokens in front of those that are replaced stay. -/
theorem behind_cons (hm : m ≤ ys.length) : behind m es (t :: ys) = t :: behind m es ys := by
  unfold behind
  rw [List.length_cons, Nat.sub_add_comm hm, List.take_succ_cons, List.cons_append]

/-- The token in front stays as long as not all are replaced. -/
theorem kindOf_behind (hm : m < xs.length) : kindOf (behind m es xs) = kindOf xs := by
  cases xs with
  | nil => exact absurd hm (Nat.not_lt_zero m)
  | cons t xs =>
    rw [behind_cons (Nat.le_of_lt_succ hm)]
    rfl

theorem Lit.behind (h : Lit k x xs ys) (hm : m ≤ ys.length) :
    Lit k x (Grammar.behind m es xs) (Grammar.behind m es ys) := by
  obtain ⟨line, rfl⟩ := h
  exact ⟨line, behind_cons hm⟩

/-- A token is taken whatever stands behind it. -/
theorem Tok.behind (h : Tok k xs ys) (hm : m ≤ ys.length) :
    Tok k (Grammar.behind m es xs) (Grammar.behind m es ys) := by
  obtain ⟨x, h⟩ := h
  exact ⟨x, h.behind hm⟩

/-- Whether an expression stops depends on the next token only. -/
theorem Stops.behind {p : Precedence} (h : Stops p xs) (hm : m < xs.length) : Stops p (Grammar.behind m es xs) := by
  unfold Stops
  rwa [kindOf_behind hm]

/-- Whether a semicolon may be missing depends on the next token only. -/
theorem Semicolon.behind {needed : Prop} (h : Semicolon rules needed xs ys) (hm : m < ys.length) :
    Semicolon rules needed (Grammar.behind m es xs) (Grammar.behind m es ys) := by
  cases h with
  | there h => exact .there (h.behind (Nat.le_of_lt hm))
  | missing hneeded h => exact .missing hneeded fun hl => by rw [kindOf_behind hm]; exact h hl

section Lists

variable {item : List Token → α → List Token → Prop} (hlength : ∀ xs a ys, item xs a ys → ys.length ≤ xs.length)
  (hitem : ∀ xs a ys, item xs a ys → m < ys.length → item (Grammar.behind m es xs) a (Grammar.behind m es ys))

include hlength hitem

/-- Further items end where the next token is no comma. -/
theorem Further.behind {as : List α} (h : Further item xs as ys) (hm : m < ys.length) :
    Further item (Grammar.behind m es xs) as (Grammar.behind m es ys) := by
  induction h with
  | nil => exact .nil
  | cons hcomma ha has ih =>
    have hrest := has.length (hlength _ _ _)
    have ha' := hlength _ _ _ ha
    exact .cons (hcomma.behind (by omega)) (hitem _ _ _ ha (by omega)) (ih hm)

/-- A list ends with its closing token. -/
theorem Items.behind {close : TokenKind} {as : List α} (h : Items item close xs as ys) (hm : m < ys.length) :
    Items item close (Grammar.behind m es xs) as (Grammar.behind m es ys) := by
  cases h with
  | none h => exact .none (h.behind (Nat.le_of_lt hm))
  | some ha has h =>
    have hclose := h.length
    have hrest := has.length (hlength _ _ _)
    exact .some (hitem _ _ _ ha (by omega)) (has.behind hlength hitem (by omega)) (h.behind (by omega))

end Lists

theorem Parameters.behind {names : List String} (h : Parameters xs names ys) (hm : m < ys.length) :
    Parameters (Grammar.behind m es xs) names (Grammar.behind m es ys) := by
  obtain ⟨zs, hopen, hnames⟩ := h
  have hlength (xs : List Token) (x : String) (ys : List Token) (h : Lit .ident x xs ys) : ys.length ≤ xs.length := by
    rw [h.length]
    exact Nat.le_succ _
  have := hnames.length (hlength _ _ _)
  exact ⟨_, hopen.behind (by omega), hnames.behind hlength (fun _ _ _ h hm => h.behind (Nat.le_of_lt hm)) hm⟩

theorem Param.behind {param : ConstructorParam} (h : Param xs param ys) (hm : m < ys.length) :
    Param (Grammar.behind m es xs) param (Grammar.behind m es ys) := by
  cases h with
  | name hx => exact .name (hx.behind (Nat.le_of_lt hm))
  | field hthis hdot hx =>
    have := hdot.length
    have := hx.length
    exact .field (hthis.behind (by omega)) (hdot.behind (by omega)) (hx.behind (by omega))

theorem Params.behind {params : List ConstructorParam} (h : Params xs params ys) (hm : m < ys.length) :
    Params (Grammar.behind m es xs) params (Grammar.behind m es ys) := by
  obtain ⟨zs, hopen, hparams⟩ := h
  have := hparams.length Param.length
  exact ⟨_, hopen.behind (by omega), hparams.behind (fun _ _ _ h => h.length) (fun _ _ _ h hm => h.behind hm) hm⟩

attribute [grind →] Tok.length Lit.length Semicolon.length Parameters.length Params.length Reads.length_le

/-- What comes after the token behind a phrase does not matter. -/
theorem Reads.behind {phrase : Phrase} {tree : phrase.Tree} (h : Reads rules phrase xs tree ys) (hm : m < ys.length) :
    Reads rules phrase (Grammar.behind m es xs) tree (Grammar.behind m es ys) := by
  induction h with
  -- expressions
  | expression h h' ih ih' => exact .expression (ih (by grind)) (ih' hm)
  | stop h => exact .stop fun hl => (h hl).behind hm
  | operator hop hp hk h h' ih ih' => exact .operator hop hp (hk.behind (by grind)) (ih (by grind)) (ih' hm)
  | call hp hopen h hclose h' ih ih' =>
    exact .call hp (hopen.behind (by grind)) (ih (by grind)) (hclose.behind (by grind)) (ih' hm)
  | index hp hopen h hclose h' ih ih' =>
    exact .index hp (hopen.behind (by grind)) (ih (by grind)) (hclose.behind (by grind)) (ih' hm)
  -- operands
  | name hx h => exact .name (hx.behind (by grind)) fun hl => by rw [kindOf_behind hm]; exact h hl
  | increment hx hk => exact .increment (hx.behind (by grind)) (hk.behind (by grind))
  | decrement hx hk => exact .decrement (hx.behind (by grind)) (hk.behind (by grind))
  | methodCall hobject hdot hmethod hopen h hclose ih =>
    exact .methodCall (hobject.behind (by grind)) (hdot.behind (by grind)) (hmethod.behind (by grind))
      (hopen.behind (by grind)) (ih (by grind)) (hclose.behind (by grind))
  | thisName hthis hdot hx => exact .thisName (hthis.behind (by grind)) (hdot.behind (by grind)) (hx.behind (by grind))
  | integer hx hn => exact .integer (hx.behind (by grind)) hn
  | real hx hr => exact .real (hx.behind (by grind)) hr
  | text hx => exact .text (hx.behind (by grind))
  | true hk => exact .true (hk.behind (by grind))
  | false hk => exact .false (hk.behind (by grind))
  | unary hop hk h ih => exact .unary hop (hk.behind (by grind)) (ih hm)
  | group hopen h hclose ih => exact .group (hopen.behind (by grind)) (ih (by grind)) (hclose.behind (by grind))
  | conditional hif h h' h'' ih ih' ih'' =>
    exact .conditional (hif.behind (by grind)) (ih (by grind)) (ih' (by grind)) (ih'' hm)
  | function hfunc h ih => exact .function (hfunc.behind (by grind)) (ih hm)
  | array hopen h hclose ih => exact .array (hopen.behind (by grind)) (ih (by grind)) (hclose.behind (by grind))
  | hash hopen h hclose ih => exact .hash (hopen.behind (by grind)) (ih (by grind)) (hclose.behind (by grind))
  | rangeFor hfor hopen hx hfrom h hto h' hclose h'' ih ih' ih'' =>
    exact .rangeFor (hfor.behind (by grind)) (hopen.behind (by grind)) (hx.behind (by grind)) (hfrom.behind (by grind))
      (ih (by grind)) (hto.behind (by grind)) (ih' (by grind)) (hclose.behind (by grind)) (ih'' hm)
  | collectionFor hfor hopen hx hin hcollection hclose h ih =>
    exact .collectionFor (hfor.behind (by grind)) (hopen.behind (by grind)) (hx.behind (by grind))
      (hin.behind (by grind)) (hcollection.behind (by grind)) (hclose.behind (by grind)) (ih hm)
  | new hnew hname hopen h hclose ih =>
    exact .new (hnew.behind (by grind)) (hname.behind (by grind)) (hopen.behind (by grind)) (ih (by grind))
      (hclose.behind (by grind))
  -- their parts
  | noArguments => exact .noArguments
  | someArguments h h' ih ih' => exact .someArguments (ih (by grind)) (ih' hm)
  | lastArgument => exact .lastArgument
  | furtherArgument hcomma h h' ih ih' => exact .furtherArgument (hcomma.behind (by grind)) (ih (by grind)) (ih' hm)
  | noPairs => exact .noPairs
  | lastPair h hcolon h' ih ih' => exact .lastPair (ih (by grind)) (hcolon.behind (by grind)) (ih' hm)
  | pair h hcolon h' hcomma h'' ih ih' ih'' =>
    exact .pair (ih (by grind)) (hcolon.behind (by grind)) (ih' (by grind)) (hcomma.behind (by grind)) (ih'' hm)
  | branch hopen h hclose h' ih ih' =>
    exact .branch (hopen.behind (by grind)) (ih (by grind)) (hclose.behind (by grind)) (ih' hm)
  | lastBranch h => exact .lastBranch fun hl => by rw [kindOf_behind hm]; exact h hl
  | furtherBranch helif h h' ih ih' => exact .furtherBranch (helif.behind (by grind)) (ih (by grind)) (ih' hm)
  | noElse h => exact .noElse fun hl => by rw [kindOf_behind hm]; exact h hl
  | «else» helse h ih => exact .else (helse.behind (by grind)) (ih hm)
  | functionLit hparameters h ih => exact .functionLit (hparameters.behind (by grind)) (ih hm)
  -- statements
  | noValue h => exact .noValue fun hl => by rw [kindOf_behind hm]; exact h hl
  | value hassign h ih => exact .value (hassign.behind (by grind)) (ih hm)
  | noResult h => exact .noResult fun hl => by rw [kindOf_behind hm]; exact h hl
  | result h ih => exact .result (ih hm)
  | var hvar hx h hsemicolon ih =>
    exact .var (hvar.behind (by grind)) (hx.behind (by grind)) (ih (by grind)) (hsemicolon.behind hm)
  | ret hreturn h hsemicolon ih => exact .ret (hreturn.behind (by grind)) (ih (by grind)) (hsemicolon.behind hm)
  | expr h hsemicolon ih => exact .expr (ih (by grind)) (hsemicolon.behind hm)
  | functionDecl hfunc h ih => exact .functionDecl (hfunc.behind (by grind)) (ih hm)
  | classDecl hclass hname hopen h hclose hinits ih =>
    exact .classDecl (hclass.behind (by grind)) (hname.behind (by grind)) (hopen.behind (by grind)) (ih (by grind))
      (hclose.behind (by grind)) hinits
  | noStatements => exact .noStatements
  | statements h h' ih ih' => exact .statements (ih (by grind)) (ih' hm)
  | block hopen h hclose ih => exact .block (hopen.behind (by grind)) (ih (by grind)) (hclose.behind (by grind))
  | declaration hname h hsemicolon ih =>
    exact .declaration (hname.behind (by grind)) (ih (by grind)) (hsemicolon.behind hm)
  -- members of classes
  | constructor hparams h ih => exact .constructor (hparams.behind (by grind)) (ih hm)
  | field hvar hx h hsemicolon ih =>
    exact .field (hvar.behind (by grind)) (hx.behind (by grind)) (ih (by grind)) (hsemicolon.behind hm)
  | method hfunc h ih => exact .method (hfunc.behind (by grind)) (ih hm)
  | init hinit h ih => exact .init (hinit.behind (by grind)) (ih hm)
  | empty h => exact .empty (h.behind (by grind))
  | noMembers => exact .noMembers
  | members h h' ih ih' => exact .members (ih (by grind)) (ih' hm)

end Behind

/-! ## Statements behind statements -/

section Following

variable {xs ys as bs rest : List Token} {t e : Token}

/-- The last token of an expression is no semicolon. -/
theorem Reads.last_ne_semicolon {p : Precedence} {e : Expr} (h : Reads .greedy (.expression p) xs e ys)
    (hlast : t :: ys <:+ xs) : t.kind ≠ .semicolon := by
  -- what the handlers leave of the tokens is a suffix of them
  let R (us vs : List Token) : Prop := us = vs ∧ us <:+ xs
  have htail {us vs : List Token} (h : R us vs) : R us.tail vs.tail :=
    ⟨congrArg List.tail h.1, (List.tail_suffix us).trans h.2⟩
  have hR : Step.Companion R :=
    { kind h := by rw [h.1]
      literal h := by rw [h.1]
      tail h _ := htail h
      semicolon h _ := .inl (htail h)
      brace _ _ _ _ h := htail h }
  obtain ⟨us, hus, u, rfl⟩ := h.found _ (Nat.lt_succ_self xs.length)
  obtain ⟨zs, -, hsuffix, hclear⟩ :=
    (Parse.nested_lockstep hR (Nat.le_refl _)).1 p xs xs ⟨rfl, List.suffix_refl xs⟩ _ hus
  have heq : t :: ys = u :: ys := List.suffix_of_suffix_length_le hlast hsuffix.2 (Nat.le_refl _) |>.eq_of_length rfl
  rw [(List.cons.inj heq).1]
  exact hclear e rfl

/-- A token that is taken leaves the tokens behind it. -/
theorem Tok.suffix {k : TokenKind} (h : Tok k xs ys) : ys <:+ xs := by
  obtain ⟨x, line, rfl⟩ := h
  exact List.suffix_cons _ _

/-- The token that is taken in front of the last one is the last but one. -/
theorem Tok.kind_last {k : TokenKind} (h : Tok k xs [e]) (hlast : [t, e] <:+ xs) : t.kind = k := by
  obtain ⟨x, line, rfl⟩ := h
  have heq := hlast.eq_of_length rfl
  rw [(List.cons.inj heq).1]

/-- The last statement of a source stays one in front of other statements, if it ends with a semicolon or is a
declaration. -/
theorem Reads.statement_followed {s : Stmt} (h : Reads .greedy .statement xs s [e])
    (hclosed : (∃ t, t.kind = .semicolon ∧ [t, e] <:+ xs) ∨ s.declares) (hbs : kindOf bs ≠ .semicolon) :
    Reads .greedy .statement (Grammar.behind 1 bs xs) s bs := by
  cases h with
  | var hvar hx h hsemicolon =>
    cases hsemicolon with
    | there hsemicolon =>
      exact .var (hvar.behind (by grind)) (hx.behind (by grind)) (h.behind (by grind))
        (.there (hsemicolon.behind Nat.le.refl))
    | missing =>
      obtain ⟨t, ht, hlast⟩ := hclosed.resolve_right nofun
      cases h with
      | noValue =>
        have hk := hx.tok.kind_last (List.suffix_of_suffix_length_le hlast hvar.suffix (by grind))
        rw [ht] at hk
        cases hk
      | value hassign h =>
        have hsuffix := hassign.suffix.trans (hx.tok.suffix.trans hvar.suffix)
        have := h.length_lt rfl
        exact (h.last_ne_semicolon (List.suffix_of_suffix_length_le hlast hsuffix this) ht).elim
  | ret hreturn h hsemicolon =>
    cases hsemicolon with
    | there hsemicolon =>
      exact .ret (hreturn.behind (by grind)) (h.behind (by grind)) (.there (hsemicolon.behind Nat.le.refl))
    | missing =>
      obtain ⟨t, ht, hlast⟩ := hclosed.resolve_right nofun
      cases h with
      | noResult =>
        have hk := hreturn.kind_last hlast
        rw [ht] at hk
        cases hk
      | result h =>
        have := h.length_lt rfl
        exact (h.last_ne_semicolon (List.suffix_of_suffix_length_le hlast hreturn.suffix this) ht).elim
  | expr h hsemicolon =>
    cases hsemicolon with
    | there hsemicolon => exact .expr (h.behind (by grind)) (.there (hsemicolon.behind Nat.le.refl))
    | missing =>
      obtain ⟨t, ht, hlast⟩ := hclosed.resolve_right nofun
      exact (h.last_ne_semicolon hlast ht).elim
  | functionDecl hfunc h =>
    cases h with
    | declaration hname h hsemicolon =>
      cases hsemicolon with
      | there hsemicolon =>
        exact .functionDecl (hfunc.behind (by grind)) (.declaration (hname.behind (by grind)) (h.behind (by grind))
          (.there (hsemicolon.behind Nat.le.refl)))
      | missing =>
        cases h with
        | functionLit hparameters h =>
          cases h with
          | block hopen h hclose =>
            have hfunction : Reads .greedy .function (Grammar.behind 1 bs _) _ bs :=
              .functionLit (hparameters.behind (by grind))
                (.block (hopen.behind (by grind)) (h.behind (by grind)) (hclose.behind Nat.le.refl))
            exact .functionDecl (hfunc.behind (by grind)) (.declaration (hname.behind (by grind)) hfunction
              (.missing id fun _ => hbs))
  | classDecl hclass hname hopen h hclose hinits =>
    exact .classDecl (hclass.behind (by grind)) (hname.behind (by grind)) (hopen.behind (by grind))
      (h.behind (by grind)) (hclose.behind Nat.le.refl) hinits

/-- What is read of a source, and what is read of further tokens put in the place of its end. -/
theorem Reads.statements_followed {program further : List Stmt} (h : Reads .greedy .statements xs program [e])
    (hclosed : xs = [e] ∨ (∃ t, t.kind = .semicolon ∧ [t, e] <:+ xs) ∨ program.getLast?.any Stmt.declares)
    (hbs : kindOf bs ≠ .semicolon) (h' : Reads .greedy .statements bs further rest) :
    Reads .greedy .statements (Grammar.behind 1 bs xs) (program ++ further) rest := by
  induction program generalizing xs with
  | nil =>
    cases h
    exact h'
  | cons s program ih =>
    cases h with
    | statements hs hprogram =>
      have hs' := hs.length_lt rfl
      have hprogram' := hprogram.length_le
      have hclosed := hclosed.resolve_left (by rintro rfl; exact Nat.lt_irrefl 1 (Nat.lt_of_le_of_lt hprogram' hs'))
      cases program with
      | nil =>
        cases hprogram
        exact .statements (hs.statement_followed hclosed hbs) h'
      | cons s' program =>
        cases hprogram with
        | statements hs₁ hprogram₁ =>
          have hlength := Nat.lt_of_le_of_lt hprogram₁.length_le (hs₁.length_lt rfl)
          obtain ⟨_, hpasses, -⟩ := hs.passes
          obtain ⟨ts, hts, -⟩ := hpasses
          refine .statements (hs.behind hlength) (ih (.statements hs₁ hprogram₁) (.inr ?_))
          exact hclosed.imp_left fun ⟨t, ht, hlast⟩ =>
            ⟨t, ht, List.suffix_of_suffix_length_le hlast ⟨ts, hts.symm⟩ hlength⟩

end Following

end Grammar

end Pron
