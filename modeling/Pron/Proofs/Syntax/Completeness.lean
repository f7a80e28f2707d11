import Pron.Proofs.Syntax.Handlers
import Pron.Proofs.Syntax.Grouping

/-!
# Every derivation is found

`Found phrase xs tree ys` is what the handlers make of a phrase that `xs` starts with, when the bound on nesting and on
rounds is larger than the number of tokens. A derivation that keeps the conventions is found (`Grammar.Reads.found`), by
induction on it: each production is one lemma on a handler, and what is read is shorter than what it is a part of.
So the parser accepts every sentence whose statements are closed by their semicolons (`closed_sentence_accepted`).
-/

namespace Pron

namespace Parse

open Step (kindOf Gives Behind)
open Grammar

/-- What the handlers make of a phrase. -/
def Found : (phrase : Phrase) → List Token → phrase.Tree → List Token → Prop
  | .expression p, xs, e, ys => ∀ n, xs.length < n → Gives (expr n p) xs e (Behind ys)
  | .operand, xs, e, ys => ∀ n, xs.length ≤ n → Gives (operand n (expr n) (block n)) xs e (Behind ys)
  | .chain p left, xs, e, ys => ∀ n m t, xs.length < n → xs.length < m →
      Gives (continuations n (expr n) p m left) (t :: xs) e (Behind ys)
  | .arguments, xs, es, ys => ∀ n close zs t, startsOperand close = false → close ≠ .comma → Tok close ys zs →
      xs.length < n → Gives (arguments n (expr n) close) (t :: xs) es (Behind zs)
  | .furtherArguments, xs, es, ys => ∀ n close, startsOperand close = false → xs.length < n →
      Further (ItemGives (do Step.advance; expr n .lowest) close) xs es ys
  | .pairs, xs, pairs, ys => ∀ n m t, kindOf ys = .rbrace → xs.length < n → xs.length < m →
      Gives (hashPairs (expr n) m) (t :: xs) pairs (Behind ys)
  | .branch, xs, b, ys => ∀ n t, xs.length < n → Gives (branch (expr n) (block n)) (t :: xs) b (Behind ys)
  | .furtherBranches, xs, bs, ys => ∀ n m t, xs.length < n → xs.length < m →
      Gives (moreBranches (expr n) (block n) m) (t :: xs) bs (Behind ys)
  | .otherwise, xs, last, ys => ∀ n, xs.length < n → OtherwiseGives (block n) xs last ys
  | .initial, xs, e, ys => ∀ n, xs.length < n → InitialGives (expr n) xs e ys
  | .result, xs, e, ys => ∀ n, xs.length < n → ResultGives (expr n) xs e ys
  | .function, xs, literal, ys => ∀ n t, xs.length < n → Gives (functionLit n (block n)) (t :: xs) literal (Behind ys)
  | .declaration, xs, decl, ys => ∀ n t, xs.length < n → Gives (functionDecl n (block n)) (t :: xs) decl (Behind ys)
  | .constructor, xs, init, ys => ∀ n t, xs.length < n → Gives (constructor n (block n)) (t :: xs) init (Behind ys)
  | .member, xs, m, ys => ∀ n decl decl', decl.Adds [m] decl' → xs.length < n →
      Gives (member n (expr n) (block n) decl) xs decl' (Behind ys)
  | .members, xs, ms, ys => ∀ n m decl decl', decl.Adds ms decl' → kindOf ys = .rbrace → xs.length < n →
      xs.length < m → Gives (members n (expr n) (block n) m decl) xs decl' (· = ys)
  | .statement, xs, s, ys => ∀ n, xs.length < n → Gives (statement n (expr n) (block n)) xs s (Behind ys)
  | .statements, xs, body, ys => ∀ n m ends, (∀ k, startsStatement k → ends k = false) → ends (kindOf ys) →
      xs.length < n → xs.length < m → Gives (statements n (expr n) (block n) ends m) xs body (· = ys)
  | .block, xs, body, ys => ∀ n, xs.length < n → Gives (block n) xs body (Behind ys)

variable {n m : Nat} {xs ys zs us : List Token}

/-- A block in a construct. -/
theorem found_bracedBlock {rules : Rules} {body : List Stmt} (h : Reads rules .block xs body ys)
    (hfound : Found .block xs body ys) (hn : xs.length < n) (t : Token) :
    Gives (bracedBlock (block n)) (t :: xs) body (Behind ys) := by
  refine bracedBlock_gives ?_ (hfound n hn) t
  cases h with
  | block hopen => exact hopen.kindOf_eq

theorem found_argument {e : Expr} {close : TokenKind} (hstart : startsOperand (kindOf xs))
    (hclose : startsOperand close = false) (hlength : ys.length ≤ xs.length)
    (h : Found (.expression .lowest) xs e ys) (hn : xs.length < n) :
    ItemGives (do Step.advance; expr n .lowest) close xs e ys where
  ne_close := by
    rintro rfl
    rw [hstart] at hclose
    cases hclose
  length := hlength
  gives _ := .advance_bind (h n hn)

end Parse

open Grammar

open Parse Step in
theorem Grammar.Reads.found {phrase : Phrase} {xs ys : List Token} {tree : phrase.Tree}
    (h : Reads .greedy phrase xs tree ys) : Found phrase xs tree ys := by
  induction h with
  -- expressions
  | expression hleft hchain ih ih' =>
    intro n hn
    obtain ⟨n, rfl⟩ := Nat.exists_eq_add_one.2 (Nat.zero_lt_of_lt hn)
    have := hleft.length_lt rfl
    exact .bind (ih n (by omega)) fun t => ih' n n t (by omega) (by omega)
  | stop h =>
    intro n m t _ hm
    exact stop_gives (h trivial) (by omega) t
  | operator hop hp hk hright _ ih ih' =>
    intro n m t hn hm
    obtain ⟨m, rfl⟩ := Nat.exists_eq_add_one.2 (Nat.zero_lt_of_lt hm)
    have := hk.length
    have := hright.length_le
    refine continue_gives ?_ (hp trivial) (operator_gives hk (ih n ?_)) (fun t => ih' n m t ?_ ?_) t
    · rw [hk.kindOf_eq]
      exact ofKind?_of_binary? hop
    all_goals omega
  | call hp hopen harguments hclose _ ih ih' =>
    intro n m t hn hm
    obtain ⟨m, rfl⟩ := Nat.exists_eq_add_one.2 (Nat.zero_lt_of_lt hm)
    have := hopen.length
    have := harguments.length_le
    have := hclose.length
    refine continue_gives ?_ (hp trivial) (call_gives hopen fun t => ih n .rparen _ t rfl nofun hclose ?_)
      (fun t => ih' n m t ?_ ?_) t
    · rw [hopen.kindOf_eq]
      rfl
    all_goals omega
  | index hp hopen hi hclose _ ih ih' =>
    intro n m t hn hm
    obtain ⟨m, rfl⟩ := Nat.exists_eq_add_one.2 (Nat.zero_lt_of_lt hm)
    have := hopen.length
    have := hi.length_le
    have := hclose.length
    refine continue_gives ?_ (hp trivial) (index_gives hopen (ih n ?_) hclose) (fun t => ih' n m t ?_ ?_) t
    · rw [hopen.kindOf_eq]
      rfl
    all_goals omega
  -- operands
  | name hx hys =>
    intro n _
    refine .kind_bind ?_
    rw [hx.kindOf_eq]
    exact name_gives hx (hys trivial)
  | increment hx hstep =>
    intro n _
    refine .kind_bind ?_
    rw [hx.kindOf_eq]
    exact increment_gives hx hstep
  | decrement hx hstep =>
    intro n _
    refine .kind_bind ?_
    rw [hx.kindOf_eq]
    exact decrement_gives hx hstep
  | methodCall hobject hdot hmethod hopen harguments hclose ih =>
    intro n hn
    have := hobject.length
    have := hdot.length
    have := hmethod.length
    have := hopen.length
    refine .kind_bind ?_
    rw [hobject.kindOf_eq]
    exact methodCall_gives hobject hdot hmethod hopen fun t => ih n .rparen _ t rfl nofun hclose (by omega)
  | thisName hthis hdot hx =>
    intro n _
    refine .kind_bind ?_
    rw [hthis.kindOf_eq]
    exact thisForm_gives hthis hdot hx
  | integer hx hread =>
    intro n _
    refine .kind_bind ?_
    rw [hx.kindOf_eq]
    exact integerForm_gives hx hread
  | real hx hread =>
    intro n _
    refine .kind_bind ?_
    rw [hx.kindOf_eq]
    exact realForm_gives hx hread
  | text hx =>
    intro n _
    obtain ⟨_, rfl⟩ := hx
    exact .kind_bind (.literal_bind (.pure ⟨_, rfl⟩))
  | true h =>
    intro n _
    obtain ⟨_, _, rfl⟩ := h
    exact .kind_bind (.pure ⟨_, rfl⟩)
  | false h =>
    intro n _
    obtain ⟨_, _, rfl⟩ := h
    exact .kind_bind (.pure ⟨_, rfl⟩)
  | @unary op k _ _ _ _ hop hk _ ih =>
    intro n hn
    have := hk.length
    refine .kind_bind ?_
    rw [hk.kindOf_eq]
    cases k with
    | bang | minus =>
      cases hop
      exact unaryForm_gives hk (ih n (by omega))
    | _ => cases hop
  | group hopen _ hclose ih =>
    intro n hn
    have := hopen.length
    refine .kind_bind ?_
    rw [hopen.kindOf_eq]
    exact groupForm_gives hopen (ih n (by omega)) hclose
  | conditional hif hfirst hmore _ ih ih' ih'' =>
    intro n hn
    have := hif.length
    have := hfirst.length_le
    have := hmore.length_le
    refine .kind_bind ?_
    rw [hif.kindOf_eq]
    refine conditionalForm_gives hif (fun t => ih n t ?_) (fun t => ih' n n t ?_ ?_) (ih'' n ?_)
    all_goals omega
  | function hfunc _ ih =>
    intro n hn
    have := hfunc.length
    obtain ⟨_, _, rfl⟩ := hfunc
    exact .kind_bind (.bind (ih n _ (by omega)) fun t => .pure ⟨t, rfl⟩)
  | array hopen _ hclose ih =>
    intro n hn
    have := hopen.length
    obtain ⟨_, _, rfl⟩ := hopen
    exact .kind_bind (.bind (ih n .rbracket _ _ rfl nofun hclose (by omega)) fun t => .pure ⟨t, rfl⟩)
  | hash hopen _ hclose ih =>
    intro n hn
    have := hopen.length
    refine .kind_bind ?_
    rw [hopen.kindOf_eq]
    exact hashForm_gives hopen (fun t => ih n n t hclose.kindOf_eq (by omega) (by omega)) hclose
  | rangeFor hfor hopen hx hfrom hstart hto hstop hclose hbody ih ih' ih'' =>
    intro n hn
    have := hfor.length
    have := hopen.length
    have := hx.length
    have := hfrom.length
    have := hstart.length_le
    have := hto.length
    have := hstop.length_le
    have := hclose.length
    refine .kind_bind ?_
    rw [hfor.kindOf_eq]
    exact rangeFor_gives hfor hopen hx hfrom (ih n (by omega)) hto (ih' n (by omega)) hclose
      (found_bracedBlock hbody ih'' (by omega))
  | collectionFor hfor hopen hx hin hcollection hclose hbody ih =>
    intro n hn
    have := hfor.length
    have := hopen.length
    have := hx.length
    have := hin.length
    have := hcollection.length
    have := hclose.length
    refine .kind_bind ?_
    rw [hfor.kindOf_eq]
    exact collectionFor_gives hfor hopen hx hin hcollection hclose (found_bracedBlock hbody ih (by omega))
  | new hnew hname hopen _ hclose ih =>
    intro n hn
    have := hnew.length
    have := hname.length
    have := hopen.length
    refine .kind_bind ?_
    rw [hnew.kindOf_eq]
    exact newForm_gives hnew hname hopen fun t => ih n .rparen _ t rfl nofun hclose (by omega)
  -- their parts
  | noArguments =>
    intro n close zs t _ hcomma hclose hn
    exact items_gives (.none hclose) hn hcomma t
  | someArguments he hes ih ih' =>
    intro n close zs t hstart hcomma hclose hn
    have := he.length_lt rfl
    have hfirst := found_argument he.expression_starts hstart he.length_le ih hn
    exact items_gives (.some hfirst (ih' n close hstart (by omega)) hclose) hn hcomma t
  | lastArgument => exact fun _ _ _ _ => .nil
  | furtherArgument hcomma he _ ih ih' =>
    intro n close hstart hn
    have := hcomma.length
    have := he.length_le
    exact .cons hcomma (found_argument he.expression_starts hstart he.length_le ih (by omega))
      (ih' n close hstart (by omega))
  | noPairs => exact fun n m t hclose _ hm => noPairs_gives hclose (by omega) t
  | lastPair hkey hcolon hvalue ih ih' =>
    intro n m t hclose hn hm
    obtain ⟨m, rfl⟩ := Nat.exists_eq_add_one.2 (Nat.zero_lt_of_lt hm)
    have := hkey.length_lt rfl
    have := hcolon.length
    have := hvalue.length_lt rfl
    refine pair_gives ?_ (ih n hn) hcolon (ih' n (by omega)) (fun t => noPairs_gives hclose (by omega) t) ?_ t
    · exact fun h => by have := hkey.expression_starts; rw [h] at this; cases this
    · rw [if_pos hclose]
  | pair hkey hcolon hvalue hcomma hpairs ih ih' ih'' =>
    intro n m t hclose hn hm
    obtain ⟨m, rfl⟩ := Nat.exists_eq_add_one.2 (Nat.zero_lt_of_lt hm)
    have := hkey.length_lt rfl
    have := hcolon.length
    have := hvalue.length_lt rfl
    have := hcomma.length
    refine pair_gives ?_ (ih n hn) hcolon (ih' n (by omega)) (fun t => ih'' n m t hclose (by omega) (by omega)) ?_ t
    · exact fun h => by have := hkey.expression_starts; rw [h] at this; cases this
    · rw [if_neg (by rw [hcomma.kindOf_eq]; nofun)]
      exact hcomma
  | branch hopen hcondition hclose hbody ih ih' =>
    intro n t hn
    have := hopen.length
    have := hcondition.length_le
    have := hclose.length
    exact branch_gives hopen (ih n (by omega)) hclose (found_bracedBlock hbody ih' (by omega)) t
  | lastBranch helif => exact fun n m t _ hm => lastBranch_gives (helif trivial) (by omega) t
  | furtherBranch helif hb _ ih ih' =>
    intro n m t hn hm
    obtain ⟨m, rfl⟩ := Nat.exists_eq_add_one.2 (Nat.zero_lt_of_lt hm)
    have := helif.length
    have := hb.length_le
    refine furtherBranch_gives helif (fun t => ih n t ?_) (fun t => ih' n m t ?_ ?_) t
    all_goals omega
  | noElse helse => exact fun n _ => .none (helse trivial)
  | «else» helse hbody ih =>
    intro n hn
    have := helse.length
    exact .some helse (found_bracedBlock hbody ih (by omega))
  | functionLit hparameters hbody ih =>
    intro n t hn
    have := hparameters.length
    exact functionLit_gives hparameters hn (found_bracedBlock hbody ih (by omega)) t
  -- statements
  | noValue hassign => exact fun n _ => .none (hassign trivial)
  | value hassign _ ih =>
    intro n hn
    have := hassign.length
    exact .some hassign (ih n (by omega))
  | noResult h => exact fun n _ => .none (h trivial)
  | result he ih => exact fun n hn => .some he.expression_starts (ih n hn)
  | var hvar hx hvalue hsemicolon ih =>
    intro n hn
    have := hvar.length
    have := hx.length
    obtain ⟨_, _, rfl⟩ := hvar
    refine .kind_bind (.peek_bind ?_)
    exact .bind (binding_gives hx (ih n (by omega)) hsemicolon _) fun t => .pure ⟨t, rfl⟩
  | ret hreturn _ hsemicolon ih =>
    intro n hn
    have := hreturn.length
    obtain ⟨_, _, rfl⟩ := hreturn
    exact .kind_bind (.peek_bind (returnStatement_gives (ih n (by omega)) hsemicolon _))
  | expr he hsemicolon ih =>
    intro n hn
    exact statement_gives he.expression_starts he.expression_func (expressionStatement_gives (ih n hn) hsemicolon)
  | functionDecl hfunc hdecl ih =>
    intro n hn
    have := hfunc.length
    obtain ⟨_, _, rfl⟩ := hfunc
    refine .kind_bind (.peek_bind ?_)
    rw [hdecl.declaration_starts]
    exact .bind (ih n _ (by omega)) fun t => .pure ⟨t, rfl⟩
  | classDecl hclass hname hopen _ hclose hinits ih =>
    intro n hn
    have := hclass.length
    have := hname.length
    have := hopen.length
    obtain ⟨_, _, rfl⟩ := hclass
    refine .kind_bind (.peek_bind (.bind (classDecl_gives hname hopen ?_ hclose _) fun t => .pure ⟨t, rfl⟩))
    exact ih n n _ _ (.ofMembers hinits) hclose.kindOf_eq (by omega) (by omega)
  | noStatements => exact fun n m ends _ hends _ hm => noStatements_gives hends (by omega)
  | statements hs _ ih ih' =>
    intro n m ends hstart hends hn hm
    obtain ⟨m, rfl⟩ := Nat.exists_eq_add_one.2 (Nat.zero_lt_of_lt hm)
    have := hs.length_lt rfl
    exact statements_gives (hstart _ hs.statement_starts) (ih n hn) (ih' n m ends hstart hends (by omega) (by omega))
  | block hopen _ hclose ih =>
    intro n hn
    obtain ⟨n, rfl⟩ := Nat.exists_eq_add_one.2 (Nat.zero_lt_of_lt hn)
    have := hopen.length
    refine blockBody_gives hopen (ih n n _ ?_ ?_ ?_ ?_) hclose
    · intro k hk
      cases k <;> first | rfl | cases hk
    · rw [hclose.kindOf_eq]
      rfl
    all_goals omega
  | declaration hname _ hsemicolon ih =>
    intro n t hn
    have := hname.length
    exact functionDecl_gives hname (fun t => ih n t (by omega)) hsemicolon t
  -- members of classes
  | constructor hparams hbody ih =>
    intro n t hn
    have := hparams.length
    exact constructor_gives hparams hn (found_bracedBlock hbody ih (by omega)) t
  | field hvar hx _ hsemicolon ih =>
    intro n decl decl' hadds hn
    have := hvar.length
    have := hx.length
    rw [hadds.unique .ofField]
    exact field_gives hvar fun t => binding_gives hx (ih n (by omega)) hsemicolon t
  | method hfunc _ ih =>
    intro n decl decl' hadds hn
    have := hfunc.length
    rw [hadds.unique .ofMethod]
    exact method_gives hfunc fun t => ih n t (by omega)
  | init hinit _ ih =>
    intro n decl decl' hadds hn
    have := hinit.length
    have hdecl := hadds.init_eq_none
    rw [hadds.unique (.ofInit hdecl)]
    exact init_gives hdecl hinit fun t => ih n t (by omega)
  | empty h =>
    intro n decl decl' hadds _
    rw [hadds.unique .ofEmpty]
    exact empty_gives h
  | noMembers =>
    intro n m decl decl' hadds hclose _ hm
    rw [hadds.unique (.refl decl)]
    exact noMembers_gives hclose (by omega)
  | members hmember _ ih ih' =>
    intro n m decl decl' hadds hclose hn hm
    obtain ⟨m, rfl⟩ := Nat.exists_eq_add_one.2 (Nat.zero_lt_of_lt hm)
    have := hmember.length_lt rfl
    obtain ⟨mid, hfirst, hrest⟩ := hadds.cons
    have h := ih' n m mid decl' hrest hclose (by omega) (by omega)
    exact members_gives hmember.member_starts.1 hmember.member_starts.2 (ih n decl mid hfirst hn) h

/-- A derivation that keeps the conventions is what the parser finds. -/
theorem Grammar.Reads.parse_eq {tokens rest : List Token} {program : Program}
    (h : Reads .greedy .statements tokens program rest) (hrest : Step.kindOf rest = .eof) :
    parse tokens = ⟨program, []⟩ := by
  have hends (k : TokenKind) (hk : startsStatement k) : (k == .eof) = Bool.false := by
    cases k <;> first | rfl | cases hk
  have hn := Nat.lt_succ_self tokens.length
  obtain ⟨ys, hprogram, rfl⟩ := h.found _ _ (fun k => k == .eof) hends (by rw [hrest]; rfl) hn hn
  rw [parse, Parse.program, hprogram]

/-- What the productions derive, with a semicolon behind each `var`, `return` and expression statement, at most one
constructor in each class and numbers that can be read, is accepted. -/
theorem closed_sentence_accepted {tokens rest : List Token} {program : Program}
    (h : Reads .closing .statements tokens program rest) (hrest : Step.kindOf rest = .eof) :
    (parse tokens).errors = [] := by
  obtain ⟨⟨program', hprogram⟩, _⟩ := h.regroups (by rw [hrest]; nofun)
  rw [hprogram.parse_eq hrest]

/-- `class C` with a method and an empty member, and `-a = b;`, derived as `-(a = b)`. -/
def closedTokens : List Token :=
  [⟨.kwClass, "class", 1⟩, ⟨.ident, "C", 1⟩, ⟨.lbrace, "\x7b", 1⟩, ⟨.kwFunc, "func", 1⟩, ⟨.ident, "F", 1⟩,
    ⟨.lparen, "(", 1⟩, ⟨.rparen, ")", 1⟩, ⟨.lbrace, "\x7b", 1⟩, ⟨.kwReturn, "return", 1⟩, ⟨.semicolon, ";", 1⟩,
    ⟨.rbrace, "\x7d", 1⟩, ⟨.semicolon, ";", 1⟩, ⟨.rbrace, "\x7d", 1⟩, ⟨.minus, "-", 2⟩, ⟨.ident, "a", 2⟩,
    ⟨.assign, "=", 2⟩, ⟨.ident, "b", 2⟩, ⟨.semicolon, ";", 2⟩, ⟨.eof, "", 2⟩]

/-- The tree of that derivation. -/
def closedProgram : Program :=
  [.classDecl (.ofMembers "C" [.method ⟨"F", ⟨[], [.ret .null]⟩, isPublicName "F"⟩, .empty]),
    .expr (.unary .negate (.binary .assign (.name "a") (.name "b")))]

theorem closedTokens_accepted : Reads .closing .statements closedTokens closedProgram [⟨.eof, "", 2⟩] ∧
    Step.kindOf [⟨.eof, "", 2⟩] = .eof ∧ (parse closedTokens).errors = [] := by
  have tok {k : TokenKind} {x : String} {line : Nat} {xs : List Token} : Tok k (⟨k, x, line⟩ :: xs) xs := ⟨x, line, rfl⟩
  have name {x : String} {line : Nat} {xs : List Token} : Lit .ident x (⟨.ident, x, line⟩ :: xs) xs := ⟨line, rfl⟩
  have return_reads (xs : List Token) : Reads .closing .block
      (⟨.lbrace, "\x7b", 1⟩ :: ⟨.kwReturn, "return", 1⟩ :: ⟨.semicolon, ";", 1⟩ :: ⟨.rbrace, "\x7d", 1⟩ :: xs)
      [.ret .null] xs :=
    .block tok (.statements (.ret tok (.noResult nofun) (.there tok)) .noStatements) tok
  have assign_reads : Reads .closing .statement (closedTokens.drop 13) _ (closedTokens.drop 18) :=
    .expr (.expression (.unary (k := .minus) rfl tok (.expression (.name name nofun) (.operator (k := .assign) rfl nofun
      tok (.expression (.name name nofun) (.stop nofun)) (.stop nofun)))) (.stop nofun)) (.there tok)
  have method_reads : Reads .closing .member (closedTokens.drop 3) _ (closedTokens.drop 11) :=
    .method tok (.declaration name (.functionLit ⟨_, tok, .none tok⟩ (return_reads _)) (.missing id nofun))
  have class_reads : Reads .closing .statement closedTokens _ (closedTokens.drop 13) :=
    .classDecl tok name tok (.members method_reads (.members (.empty tok) .noMembers)) tok (Nat.zero_le 1)
  have h : Reads .closing .statements closedTokens closedProgram [⟨.eof, "", 2⟩] :=
    .statements class_reads (.statements assign_reads .noStatements)
  exact ⟨h, rfl, closed_sentence_accepted h rfl⟩

end Pron
