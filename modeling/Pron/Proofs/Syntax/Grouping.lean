import Pron.Proofs.Syntax.Lookahead

/-!
# Grouping

The productions alone leave open how operators group and where an expression ends; the conventions settle both. What has
a derivation by the productions alone, with the semicolons that may be left out, has one that keeps the conventions
(`Grammar.Reads.regroups`). An expression is first laid out flat, as operands with what stands between them (`Flat`,
`Tail`), and then read again by the levels of its operators.
-/

namespace Pron

namespace Grammar

open Step (kindOf)

variable {k : TokenKind} {xs ys zs : List Token}

/-! ## Flat expressions -/

mutual

/-- Operands, after operators before them, and what continues them up to `zs`. -/
inductive Flat (zs : List Token) : List Token → Prop
  | unary {op : UnaryOp} {k : TokenKind} {xs ys : List Token} : unary? k = some op → Tok k xs ys → Flat zs ys →
      Flat zs xs
  | operand {e : Expr} {xs ys : List Token} : Reads .greedy .operand xs e ys → Tail zs ys → Flat zs xs

/-- What continues an expression up to `zs`. -/
inductive Tail (zs : List Token) : List Token → Prop
  | nil : Tail zs zs
  | operator {op : BinaryOp} {k : TokenKind} {xs ys : List Token} : binary? k = some op → Tok k xs ys → Flat zs ys →
      Tail zs xs
  | call {es : List Expr} {xs ys us vs : List Token} : Tok .lparen xs ys → Reads .greedy .arguments ys es us →
      Tok .rparen us vs → Tail zs vs → Tail zs xs
  | index {i : Expr} {xs ys us vs : List Token} : Tok .lbracket xs ys → Reads .greedy (.expression .lowest) ys i us →
      Tok .rbracket us vs → Tail zs vs → Tail zs xs

end

/-- The kinds of token that come after a whole expression. -/
def endsExpression : TokenKind → Bool
  | .comma | .semicolon | .colon | .rparen | .rbracket | .rbrace | .kwTo => true
  | _ => false

/-- No longer operand is made of a token of these kinds. -/
def followsOperand : TokenKind → Bool
  | .dot | .increment | .decrement | .kwElif | .kwElse => false
  | _ => true

theorem follows_of_ends (h : endsExpression k) : followsOperand k := by
  cases k <;> first | rfl | cases h

theorem ofKind?_of_ends (h : endsExpression k) : Continuation.ofKind? k = none := by
  cases k <;> first | rfl | cases h

theorem stops_of_ends (p : Precedence) (h : endsExpression (kindOf xs)) : Stops p xs :=
  stops_of_eq_none (ofKind?_of_ends h)

theorem Tail.follows (h : Tail zs xs) (hzs : endsExpression (kindOf zs)) : followsOperand (kindOf xs) := by
  cases h with
  | nil => exact follows_of_ends hzs
  | @operator op k _ _ hop hk =>
    rw [hk.kindOf_eq]
    cases k <;> first | rfl | cases hop
  | call hopen | index hopen => rw [hopen.kindOf_eq]; rfl

/-- Where no operator goes on, nothing does. -/
theorem Tail.eq_of_stops (h : Tail zs xs) (hstops : Stops .lowest xs) : xs = zs := by
  cases h with
  | nil => rfl
  | @operator op k _ _ hop hk =>
    have hlow := hstops (.operator op) (by rw [hk.kindOf_eq]; exact ofKind?_of_binary? hop)
    exact absurd (by cases op <;> decide) hlow
  | call hopen => exact absurd (by decide) (hstops .call (by rw [hopen.kindOf_eq]; rfl))
  | index hopen => exact absurd (by decide) (hstops .index (by rw [hopen.kindOf_eq]; rfl))

/-- A flat expression is read by the levels of its operators, up to where its level stops it. By induction on the number
of tokens: an operator takes what binds more strongly than itself, and the chain goes on behind it. -/
theorem Flat.regroup (n : Nat) (hzs : endsExpression (kindOf zs)) :
    (∀ p xs, xs.length < n → Flat zs xs → ∃ e ys, Reads .greedy (.expression p) xs e ys ∧ Tail zs ys ∧ Stops p ys) ∧
      ∀ p l xs, xs.length < n → Tail zs xs →
        ∃ e ys, Reads .greedy (.chain p l) xs e ys ∧ Tail zs ys ∧ Stops p ys := by
  induction n with
  | zero => exact ⟨nofun, nofun⟩
  | succ n ih =>
    obtain ⟨hflat, htail⟩ := ih
    constructor
    · intro p xs hn h
      cases h with
      | unary hop hk h =>
        have := hk.length
        obtain ⟨e, ys, he, hys, _⟩ := hflat .unary _ (by omega) h
        have := he.length_le
        obtain ⟨e', us, hchain, hus⟩ := htail p (.unary _ e) ys (by omega) hys
        exact ⟨e', us, .expression (.unary hop hk he) hchain, hus⟩
      | operand he h =>
        have := he.length_lt rfl
        obtain ⟨e', us, hchain, hus⟩ := htail p _ _ (by omega) h
        exact ⟨e', us, .expression he hchain, hus⟩
    · intro p l xs hn h
      cases h with
      | nil => exact ⟨l, zs, .stop fun _ => stops_of_ends p hzs, .nil, stops_of_ends p hzs⟩
      | @operator op k _ _ hop hk h =>
        have hc : Continuation.ofKind? (kindOf xs) = some (.operator op) := by
          rw [hk.kindOf_eq]
          exact ofKind?_of_binary? hop
        by_cases hp : p < op.precedence
        · have := hk.length
          obtain ⟨r, ys, hr, hys, _⟩ := hflat op.precedence _ (by omega) h
          have := hr.length_le
          obtain ⟨e, us, hchain, hus⟩ := htail p (.binary op l r) ys (by omega) hys
          exact ⟨e, us, .operator hop (fun _ => hp) hk hr hchain, hus⟩
        · have hstops : Stops p xs := (stops_iff hc).2 hp
          exact ⟨l, xs, .stop fun _ => hstops, .operator hop hk h, hstops⟩
      | call hopen hes hclose h =>
        have hc : Continuation.ofKind? (kindOf xs) = some .call := by rw [hopen.kindOf_eq]; rfl
        by_cases hp : p < .call
        · have := hopen.length
          have := hes.length_le
          have := hclose.length
          obtain ⟨e, us, hchain, hus⟩ := htail p (.call l _) _ (by omega) h
          exact ⟨e, us, .call (fun _ => hp) hopen hes hclose hchain, hus⟩
        · have hstops : Stops p xs := (stops_iff hc).2 hp
          exact ⟨l, xs, .stop fun _ => hstops, .call hopen hes hclose h, hstops⟩
      | index hopen hi hclose h =>
        have hc : Continuation.ofKind? (kindOf xs) = some .index := by rw [hopen.kindOf_eq]; rfl
        by_cases hp : p < .index
        · have := hopen.length
          have := hi.length_le
          have := hclose.length
          obtain ⟨e, us, hchain, hus⟩ := htail p (.index l _) _ (by omega) h
          exact ⟨e, us, .index (fun _ => hp) hopen hi hclose hchain, hus⟩
        · have hstops : Stops p xs := (stops_iff hc).2 hp
          exact ⟨l, xs, .stop fun _ => hstops, .index hopen hi hclose h, hstops⟩

/-- A flat expression is an expression. -/
theorem Flat.reads (h : Flat zs xs) (hzs : endsExpression (kindOf zs)) :
    ∃ e, Reads .greedy (.expression .lowest) xs e zs := by
  obtain ⟨e, ys, he, hys, hstops⟩ := (Flat.regroup (xs.length + 1) hzs).1 .lowest xs (Nat.lt_succ_self _) h
  obtain rfl := hys.eq_of_stops hstops
  exact ⟨e, he⟩

/-! ## Phrases -/

/-- What comes of a derivation by the productions alone. Only a semicolon behind a declaration, which the productions
may take for an empty member, is given to the declaration. -/
def Regroups : (phrase : Phrase) → List Token → phrase.Tree → List Token → Prop
  | .expression _, xs, _, ys | .operand, xs, _, ys =>
    ∀ zs, Tail zs ys → endsExpression (kindOf zs) → Flat zs xs
  | .chain _ _, xs, _, ys => ∀ zs, Tail zs ys → endsExpression (kindOf zs) → Tail zs xs
  | .arguments, xs, _, ys => endsExpression (kindOf ys) → ∃ es, Reads .greedy .arguments xs es ys
  | .furtherArguments, xs, _, ys => endsExpression (kindOf ys) →
      (∃ es, Reads .greedy .furtherArguments xs es ys) ∧ endsExpression (kindOf xs)
  | .pairs, xs, _, ys => endsExpression (kindOf ys) → ∃ pairs, Reads .greedy .pairs xs pairs ys
  | .branch, xs, _, ys => ∃ b, Reads .greedy .branch xs b ys
  | .furtherBranches, xs, _, ys => kindOf ys ≠ .kwElif → ∃ bs, Reads .greedy .furtherBranches xs bs ys
  | .otherwise, xs, _, ys => followsOperand (kindOf ys) →
      (∃ last, Reads .greedy .otherwise xs last ys) ∧ kindOf xs ≠ .kwElif
  | .initial, xs, _, ys => endsExpression (kindOf ys) → ∃ e, Reads .greedy .initial xs e ys
  | .result, xs, _, ys => kindOf ys = .semicolon → ∃ e, Reads .greedy .result xs e ys
  | .function, xs, _, ys => ∃ literal, Reads .greedy .function xs literal ys
  | .constructor, xs, _, ys => ∃ init, Reads .greedy .constructor xs init ys
  | .block, xs, _, ys => ∃ body, Reads .greedy .block xs body ys
  | .declaration, xs, _, ys => ∃ decl zs, (zs = ys ∨ Tok .semicolon ys zs) ∧ Reads .greedy .declaration xs decl zs
  | .statement, xs, _, ys => ∃ s zs, (zs = ys ∨ Tok .semicolon ys zs) ∧ Reads .greedy .statement xs s zs
  | .statements, xs, _, ys => kindOf ys ≠ .semicolon →
      (∃ body, Reads .greedy .statements xs body ys) ∧ kindOf xs ≠ .semicolon
  | .member, xs, m, ys => ∃ m' zs, (zs = ys ∨ Tok .semicolon ys zs) ∧ Reads .greedy .member xs m' zs ∧
      m'.init?.isSome = m.init?.isSome
  | .members, xs, ms, ys => kindOf ys = .rbrace → ∀ zs, zs = xs ∨ Tok .semicolon xs zs →
      ∃ ms', Reads .greedy .members zs ms' ys ∧
        (ms'.filterMap Member.init?).length = (ms.filterMap Member.init?).length

theorem Semicolon.tok (h : Semicolon .closing True xs ys) : Tok .semicolon xs ys := by
  cases h with
  | there h => exact h
  | missing h => exact absurd trivial h

/-- A semicolon that is there is taken. -/
theorem Semicolon.greedy (h : Semicolon .closing False xs ys) :
    ∃ zs, (zs = ys ∨ Tok .semicolon ys zs) ∧ Semicolon .greedy False xs zs := by
  cases h with
  | there h => exact ⟨ys, .inl rfl, .there h⟩
  | missing =>
    by_cases hxs : kindOf xs = .semicolon
    · match xs, hxs with
      | t :: zs, hxs =>
        have h : Tok .semicolon (t :: zs) zs := ⟨t.literal, t.line, by rw [← hxs]; rfl⟩
        exact ⟨zs, .inr h, .there h⟩
    · exact ⟨xs, .inl rfl, .missing id fun _ => hxs⟩

/-- An expression before a token that ends it. -/
theorem Regroups.reads {p : Precedence} {e : Expr} (h : Regroups (.expression p) xs e ys)
    (hys : endsExpression (kindOf ys)) : ∃ e, Reads .greedy (.expression .lowest) xs e ys := (h ys .nil hys).reads hys

theorem Tok.ends (h : Tok k xs ys) (hk : endsExpression k) : endsExpression (kindOf xs) := by rwa [h.kindOf_eq]

theorem Reads.regroups {phrase : Phrase} {tree : phrase.Tree} (h : Reads .closing phrase xs tree ys) :
    Regroups phrase xs tree ys := by
  induction h with
  -- expressions
  | expression _ _ ih ih' => exact fun zs hzs hends => ih zs (ih' zs hzs hends) hends
  | stop => exact fun zs hzs _ => hzs
  | operator hop _ hk _ _ ih ih' =>
    intro zs hzs hends
    exact .operator hop hk (ih zs (ih' zs hzs hends) hends)
  | call _ hopen _ hclose _ ih ih' =>
    intro zs hzs hends
    obtain ⟨es, hes⟩ := ih (hclose.ends rfl)
    exact .call hopen hes hclose (ih' zs hzs hends)
  | index _ hopen _ hclose _ ih ih' =>
    intro zs hzs hends
    obtain ⟨i, hi⟩ := ih.reads (hclose.ends rfl)
    exact .index hopen hi hclose (ih' zs hzs hends)
  -- operands
  | @name x xs ys hx _ =>
    intro zs hzs hends
    have hys := hzs.follows hends
    refine .operand (.name hx fun _ => ⟨?_, ?_, ?_⟩) hzs
    all_goals
      intro h
      rw [h] at hys
      cases hys
  | increment hx hstep => exact fun zs hzs _ => .operand (.increment hx hstep) hzs
  | decrement hx hstep => exact fun zs hzs _ => .operand (.decrement hx hstep) hzs
  | methodCall hobject hdot hmethod hopen _ hclose ih =>
    intro zs hzs _
    obtain ⟨es, hes⟩ := ih (hclose.ends rfl)
    exact .operand (.methodCall hobject hdot hmethod hopen hes hclose) hzs
  | thisName hthis hdot hx => exact fun zs hzs _ => .operand (.thisName hthis hdot hx) hzs
  | integer hx hread => exact fun zs hzs _ => .operand (.integer hx hread) hzs
  | real hx hread => exact fun zs hzs _ => .operand (.real hx hread) hzs
  | text hx => exact fun zs hzs _ => .operand (.text hx) hzs
  | true h => exact fun zs hzs _ => .operand (.true h) hzs
  | false h => exact fun zs hzs _ => .operand (.false h) hzs
  | unary hop hk _ ih => exact fun zs hzs hends => .unary hop hk (ih zs hzs hends)
  | group hopen _ hclose ih =>
    intro zs hzs _
    obtain ⟨e, he⟩ := ih.reads (hclose.ends rfl)
    exact .operand (.group hopen he hclose) hzs
  | conditional hif _ _ _ ih ih' ih'' =>
    intro zs hzs hends
    obtain ⟨b, hb⟩ := ih
    obtain ⟨⟨last, hlast⟩, helif⟩ := ih'' (hzs.follows hends)
    obtain ⟨bs, hbs⟩ := ih' helif
    exact .operand (.conditional hif hb hbs hlast) hzs
  | function hfunc _ ih =>
    intro zs hzs _
    obtain ⟨literal, hliteral⟩ := ih
    exact .operand (.function hfunc hliteral) hzs
  | array hopen _ hclose ih =>
    intro zs hzs _
    obtain ⟨es, hes⟩ := ih (hclose.ends rfl)
    exact .operand (.array hopen hes hclose) hzs
  | hash hopen _ hclose ih =>
    intro zs hzs _
    obtain ⟨pairs, hpairs⟩ := ih (hclose.ends rfl)
    exact .operand (.hash hopen hpairs hclose) hzs
  | rangeFor hfor hopen hx hfrom _ hto _ hclose _ ih ih' ih'' =>
    intro zs hzs _
    obtain ⟨start, hstart⟩ := ih.reads (hto.ends rfl)
    obtain ⟨stop, hstop⟩ := ih'.reads (hclose.ends rfl)
    obtain ⟨body, hbody⟩ := ih''
    exact .operand (.rangeFor hfor hopen hx hfrom hstart hto hstop hclose hbody) hzs
  | collectionFor hfor hopen hx hin hcollection hclose _ ih =>
    intro zs hzs _
    obtain ⟨body, hbody⟩ := ih
    exact .operand (.collectionFor hfor hopen hx hin hcollection hclose hbody) hzs
  | new hnew hname hopen _ hclose ih =>
    intro zs hzs _
    obtain ⟨es, hes⟩ := ih (hclose.ends rfl)
    exact .operand (.new hnew hname hopen hes hclose) hzs
  -- their parts
  | noArguments => exact fun _ => ⟨[], .noArguments⟩
  | someArguments _ _ ih ih' =>
    intro hends
    obtain ⟨⟨es, hes⟩, hnext⟩ := ih' hends
    obtain ⟨e, he⟩ := ih.reads hnext
    exact ⟨e :: es, .someArguments he hes⟩
  | lastArgument => exact fun hends => ⟨⟨[], .lastArgument⟩, hends⟩
  | furtherArgument hcomma _ _ ih ih' =>
    intro hends
    obtain ⟨⟨es, hes⟩, hnext⟩ := ih' hends
    obtain ⟨e, he⟩ := ih.reads hnext
    exact ⟨⟨e :: es, .furtherArgument hcomma he hes⟩, hcomma.ends rfl⟩
  | noPairs => exact fun _ => ⟨[], .noPairs⟩
  | lastPair _ hcolon _ ih ih' =>
    intro hends
    obtain ⟨key, hkey⟩ := ih.reads (hcolon.ends rfl)
    obtain ⟨value, hvalue⟩ := ih'.reads hends
    exact ⟨_, .lastPair hkey hcolon hvalue⟩
  | pair _ hcolon _ hcomma _ ih ih' ih'' =>
    intro hends
    obtain ⟨key, hkey⟩ := ih.reads (hcolon.ends rfl)
    obtain ⟨value, hvalue⟩ := ih'.reads (hcomma.ends rfl)
    obtain ⟨pairs, hpairs⟩ := ih'' hends
    exact ⟨_, .pair hkey hcolon hvalue hcomma hpairs⟩
  | branch hopen _ hclose _ ih ih' =>
    obtain ⟨condition, hcondition⟩ := ih.reads (hclose.ends rfl)
    obtain ⟨body, hbody⟩ := ih'
    exact ⟨_, .branch hopen hcondition hclose hbody⟩
  | lastBranch => exact fun helif => ⟨[], .lastBranch fun _ => helif⟩
  | furtherBranch helif _ _ ih ih' =>
    intro hys
    obtain ⟨b, hb⟩ := ih
    obtain ⟨bs, hbs⟩ := ih' hys
    exact ⟨b :: bs, .furtherBranch helif hb hbs⟩
  | noElse =>
    intro hys
    refine ⟨⟨none, .noElse fun _ h => ?_⟩, fun h => ?_⟩
    all_goals
      rw [h] at hys
      cases hys
  | «else» helse _ ih =>
    intro _
    obtain ⟨body, hbody⟩ := ih
    exact ⟨⟨some body, .else helse hbody⟩, by rw [helse.kindOf_eq]; nofun⟩
  | functionLit hparameters _ ih =>
    obtain ⟨body, hbody⟩ := ih
    exact ⟨_, .functionLit hparameters hbody⟩
  -- statements
  | noValue =>
    intro hends
    refine ⟨.null, .noValue fun _ h => ?_⟩
    rw [h] at hends
    cases hends
  | value hassign _ ih =>
    intro hends
    obtain ⟨e, he⟩ := ih.reads hends
    exact ⟨e, .value hassign he⟩
  | noResult => exact fun h => ⟨.null, .noResult fun _ => .inl h⟩
  | result _ ih =>
    intro h
    obtain ⟨e, he⟩ := ih.reads (by rw [h]; rfl)
    exact ⟨e, .result he⟩
  | var hvar hx _ hsemicolon ih =>
    have hsemicolon := hsemicolon.tok
    obtain ⟨e, he⟩ := ih (hsemicolon.ends rfl)
    exact ⟨_, _, .inl rfl, .var hvar hx he (.there hsemicolon)⟩
  | ret hreturn _ hsemicolon ih =>
    have hsemicolon := hsemicolon.tok
    obtain ⟨e, he⟩ := ih hsemicolon.kindOf_eq
    exact ⟨_, _, .inl rfl, .ret hreturn he (.there hsemicolon)⟩
  | expr _ hsemicolon ih =>
    have hsemicolon := hsemicolon.tok
    obtain ⟨e, he⟩ := ih.reads (hsemicolon.ends rfl)
    exact ⟨_, _, .inl rfl, .expr he (.there hsemicolon)⟩
  | functionDecl hfunc _ ih =>
    obtain ⟨decl, zs, hzs, hdecl⟩ := ih
    exact ⟨_, zs, hzs, .functionDecl hfunc hdecl⟩
  | classDecl hclass hname hopen _ hclose hinits ih =>
    obtain ⟨ms, hms, hlength⟩ := ih hclose.kindOf_eq _ (.inl rfl)
    exact ⟨_, _, .inl rfl, .classDecl hclass hname hopen hms hclose (hlength ▸ hinits)⟩
  | noStatements => exact fun h => ⟨⟨[], .noStatements⟩, h⟩
  | statements hs _ ih ih' =>
    intro hys
    obtain ⟨⟨rest, hrest⟩, hnext⟩ := ih' hys
    obtain ⟨s, zs, hzs, hs'⟩ := ih
    obtain rfl : zs = _ := hzs.resolve_right fun h => hnext h.kindOf_eq
    refine ⟨⟨s :: rest, .statements hs' hrest⟩, fun h => ?_⟩
    have hstart := hs.statement_starts
    rw [h] at hstart
    cases hstart
  | block hopen _ hclose ih =>
    obtain ⟨⟨body, hbody⟩, _⟩ := ih (by rw [hclose.kindOf_eq]; nofun)
    exact ⟨body, .block hopen hbody hclose⟩
  | declaration hname _ hsemicolon ih =>
    obtain ⟨literal, hliteral⟩ := ih
    obtain ⟨zs, hzs, hsemicolon⟩ := hsemicolon.greedy
    exact ⟨_, zs, hzs, .declaration hname hliteral hsemicolon⟩
  -- members of classes
  | constructor hparams _ ih =>
    obtain ⟨body, hbody⟩ := ih
    exact ⟨_, .constructor hparams hbody⟩
  | field hvar hx _ hsemicolon ih =>
    have hsemicolon := hsemicolon.tok
    obtain ⟨e, he⟩ := ih (hsemicolon.ends rfl)
    exact ⟨_, _, .inl rfl, .field hvar hx he (.there hsemicolon), rfl⟩
  | method hfunc _ ih =>
    obtain ⟨decl, zs, hzs, hdecl⟩ := ih
    exact ⟨_, zs, hzs, .method hfunc hdecl, rfl⟩
  | init hinit _ ih =>
    obtain ⟨init, hconstructor⟩ := ih
    exact ⟨_, _, .inl rfl, .init hinit hconstructor, rfl⟩
  | empty h => exact ⟨_, _, .inl rfl, .empty h, rfl⟩
  | noMembers =>
    intro hclose zs hzs
    obtain rfl | h := hzs
    · exact ⟨[], .noMembers, rfl⟩
    · rw [h.kindOf_eq] at hclose
      cases hclose
  | members hmember _ ih ih' =>
    intro hclose zs hzs
    obtain rfl | h := hzs
    · obtain ⟨m, us, hus, hm, hinit⟩ := ih
      obtain ⟨ms, hms, hlength⟩ := ih' hclose us hus
      refine ⟨m :: ms, .members hm hms, ?_⟩
      rw [List.length_filterMap_eq_countP, List.length_filterMap_eq_countP] at hlength ⊢
      rw [List.countP_cons, List.countP_cons, hlength, hinit]
    · -- the semicolon has been taken before, so it is no member now
      have hsemicolon := h.kindOf_eq
      cases hmember with
      | empty h' =>
        obtain ⟨_, _, rfl⟩ := h
        obtain ⟨_, _, h'⟩ := h'
        cases h'
        obtain ⟨ms, hms, hlength⟩ := ih' hclose _ (.inl rfl)
        exact ⟨ms, hms, hlength⟩
      | field h' | method h' | init h' =>
        rw [h'.kindOf_eq] at hsemicolon
        cases hsemicolon

end Grammar

end Pron
