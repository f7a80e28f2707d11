import Pron.Proofs.Syntax.Step
import Pron.Proofs.Syntax.Lookahead

/-!
# What the parser reads

Every derivation that keeps the conventions on levels and on the longest phrase is found by the parser: from the first
token of a phrase on, its handler leaves the tree of the derivation and no error, with the last token of the phrase
current. `xs` is the list that a handler starts from, and `t :: xs` where it starts with the token before the phrase.
-/

namespace Pron

open Step (kindOf Gives Behind)
open Grammar

/-! ## Tokens -/

namespace Step.Gives

variable {α β : Type} {f : Unit → Step β} {k : TokenKind} {x : String} {xs ys : List Token} {b : β}
  {Q : List Token → Prop} {t : Token}

/-- After a token that is there, `advance` goes on behind it. -/
theorem skip_bind (h : Tok k xs ys) (hf : ∀ t, Gives (f ()) (t :: ys) b Q) : Gives (advance >>= f) (t :: xs) b Q := by
  obtain ⟨x, line, rfl⟩ := h
  exact .advance_bind (hf _)

/-- After a token that is there, `expect` goes on behind it and reports nothing. -/
theorem take_bind (h : Tok k xs ys) (hf : ∀ t, Gives (f ()) (t :: ys) b Q) : Gives (expect k >>= f) (t :: xs) b Q := by
  obtain ⟨x, line, rfl⟩ := h
  exact .expect_bind rfl (hf _)

/-- An identifier gives its text. -/
theorem name (h : Lit .ident x xs ys) (t : Token) : Gives Step.name (t :: xs) x (Behind ys) := by
  obtain ⟨line, rfl⟩ := h
  exact .expect_bind rfl ⟨_, rfl, _, rfl⟩

/-- A semicolon is passed where one stands; where it is left out nothing is passed. -/
theorem passSemicolon {needed : Prop} (h : Semicolon .greedy needed xs ys) (t : Token) :
    Gives Step.passSemicolon (t :: xs) () (Behind ys) := by
  refine .peek_bind ?_
  cases h with
  | there h =>
    obtain ⟨x, line, rfl⟩ := h
    exact ⟨_, rfl, _, rfl⟩
  | missing _ h =>
    rw [if_neg (h trivial)]
    exact .pure ⟨t, rfl⟩

end Step.Gives

namespace Parse

variable {α : Type} {n m : Nat} {k : TokenKind} {x : String} {xs ys zs us vs ws : List Token}

/-! ## Lists -/

/-- An item that is not taken for the closing token, read from the token before it. -/
structure ItemGives (item : Step α) (close : TokenKind) (xs : List Token) (a : α) (ys : List Token) : Prop where
  ne_close : kindOf xs ≠ close
  length : ys.length ≤ xs.length
  gives : ∀ t, Gives item (t :: xs) a (Behind ys)

section Lists

variable {item : Step α} {close : TokenKind} {as : List α}

/-- A comma announces a further item; where none follows the list ends. -/
theorem moreItems_gives (h : Further (ItemGives item close) xs as ys) (hm : xs.length < m) (hys : kindOf ys ≠ .comma)
    (t : Token) : Gives (Step.moreItems item m) (t :: xs) as (Behind ys) := by
  induction h generalizing m t with
  | nil =>
    obtain ⟨m, rfl⟩ := Nat.exists_eq_add_one.2 (Nat.zero_lt_of_lt hm)
    refine .peek_bind ?_
    rw [if_neg hys]
    exact .pure ⟨t, rfl⟩
  | cons hcomma ha _ ih =>
    obtain ⟨m, rfl⟩ := Nat.exists_eq_add_one.2 (Nat.zero_lt_of_lt hm)
    have hlength := hcomma.length
    have := ha.length
    refine .peek_bind ?_
    rw [if_pos hcomma.kindOf_eq]
    refine .skip_bind hcomma fun t => .bind (ha.gives t) fun t => ?_
    exact .bind (ih (by omega) hys t) fun t => .pure ⟨t, rfl⟩

/-- A list from behind its opening bracket to behind the closing one, empty or not. -/
theorem items_gives (h : Items (ItemGives item close) close xs as ys) (hn : xs.length < n) (hclose : close ≠ .comma)
    (t : Token) : Gives (Step.items n close item) (t :: xs) as (Behind ys) := by
  refine .peek_bind ?_
  cases h with
  | none h =>
    rw [if_pos h.kindOf_eq]
    exact .skip_bind h fun t => .pure ⟨t, rfl⟩
  | some ha has h =>
    have := ha.length
    have := has.length ItemGives.length
    have := h.length
    rw [if_neg ha.ne_close]
    refine .bind (ha.gives t) fun t => .bind (moreItems_gives has ?_ ?_ t) fun t => ?_
    · omega
    · rw [h.kindOf_eq]
      exact hclose
    · exact .take_bind h fun t => .pure ⟨t, rfl⟩

/-- Parameters in parentheses are their names in order. -/
theorem parameters_gives {names : List String} (h : Parameters xs names ys) (hn : xs.length < n) (t : Token) :
    Gives (parameters n) (t :: xs) names (Behind ys) := by
  obtain ⟨zs, hopen, hnames⟩ := h
  have hnames : Items (ItemGives Step.name .rparen) .rparen zs names ys :=
    hnames.mono fun hx => ⟨by rw [hx.kindOf_eq]; nofun, by rw [hx.length]; omega, Gives.name hx⟩
  have := hopen.length
  exact .take_bind hopen fun t => items_gives hnames (by omega) nofun t

end Lists

/-! ## Handlers -/

section Handlers

variable {expr : Precedence → Step Expr} {block : Step (List Stmt)}

/-- The brace that opens a block is looked at but not passed: the block passes it. -/
theorem bracedBlock_gives {body : List Stmt} (hopen : kindOf xs = .lbrace) (h : Gives block xs body (Behind ys))
    (t : Token) : Gives (bracedBlock block) (t :: xs) body (Behind ys) :=
  .expect_bind hopen h

/-- Parameters and body together are a function. -/
theorem functionLit_gives {names : List String} {body : List Stmt} (hnames : Parameters xs names ys)
    (hn : xs.length < n) (hbody : ∀ t, Gives (bracedBlock block) (t :: ys) body (Behind zs)) (t : Token) :
    Gives (functionLit n block) (t :: xs) ⟨names, body⟩ (Behind zs) :=
  .bind (parameters_gives hnames hn t) fun t => .bind (hbody t) fun t => .pure ⟨t, rfl⟩

/-! ## Expressions -/

/-- A name stands for itself where neither a method call nor a step follows. -/
theorem name_gives (h : Lit .ident x xs ys)
    (hys : kindOf ys ≠ .dot ∧ kindOf ys ≠ .increment ∧ kindOf ys ≠ .decrement) :
    Gives (nameForm n expr) xs (.name x) (Behind ys) := by
  obtain ⟨line, rfl⟩ := h
  obtain ⟨hdot, hincrement, hdecrement⟩ := hys
  refine .literal_bind (.peek_bind ?_)
  split
  · contradiction
  · contradiction
  · contradiction
  · exact .pure ⟨_, rfl⟩

theorem increment_gives (h : Lit .ident x xs ys) (hstep : Tok .increment ys zs) :
    Gives (nameForm n expr) xs (.increment x) (Behind zs) := by
  obtain ⟨line, rfl⟩ := h
  refine .literal_bind (.peek_bind ?_)
  rw [hstep.kindOf_eq]
  exact .skip_bind hstep fun t => .pure ⟨t, rfl⟩

theorem decrement_gives (h : Lit .ident x xs ys) (hstep : Tok .decrement ys zs) :
    Gives (nameForm n expr) xs (.decrement x) (Behind zs) := by
  obtain ⟨line, rfl⟩ := h
  refine .literal_bind (.peek_bind ?_)
  rw [hstep.kindOf_eq]
  exact .skip_bind hstep fun t => .pure ⟨t, rfl⟩

/-- A name, a dot, a second name and arguments are a method call. -/
theorem methodCall_gives {object method : String} {es : List Expr} (hobject : Lit .ident object xs ys)
    (hdot : Tok .dot ys zs) (hmethod : Lit .ident method zs us) (hopen : Tok .lparen us vs)
    (hes : ∀ t, Gives (arguments n expr .rparen) (t :: vs) es (Behind ws)) :
    Gives (nameForm n expr) xs (.methodCall object method es) (Behind ws) := by
  obtain ⟨line, rfl⟩ := hobject
  refine .literal_bind (.peek_bind ?_)
  rw [hdot.kindOf_eq]
  refine .skip_bind hdot fun t => .bind (Gives.name hmethod t) fun t => .take_bind hopen fun t => ?_
  exact .bind (hes t) fun t => .pure ⟨t, rfl⟩

/-- A name of the receiver. -/
theorem thisForm_gives (hthis : Tok .kwThis xs ys) (hdot : Tok .dot ys zs) (hx : Lit .ident x zs us) :
    Gives thisForm xs (.thisName x) (Behind us) := by
  obtain ⟨_, _, rfl⟩ := hthis
  exact .take_bind hdot fun t => .bind (Gives.name hx t) fun t => .pure ⟨t, rfl⟩

/-- Digits that are in range are an integer. -/
theorem integerForm_gives {i : Int64} (h : Lit .int x xs ys) (hread : Integer.read? x = some i) :
    Gives integerForm xs (.integer i) (Behind ys) := by
  obtain ⟨line, rfl⟩ := h
  refine .literal_bind ?_
  rw [hread]
  exact .pure ⟨_, rfl⟩

/-- A text with a point that can be read is a floating-point number. -/
theorem realForm_gives {r : Float} (h : Lit .real x xs ys) (hread : Double.read? x = some r) :
    Gives realForm xs (.real r) (Behind ys) := by
  obtain ⟨line, rfl⟩ := h
  refine .literal_bind ?_
  rw [hread]
  exact .pure ⟨_, rfl⟩

/-- The operand of a prefix operator is read at the level `unary`. -/
theorem unaryForm_gives {op : UnaryOp} {e : Expr} (hk : Tok k xs ys) (he : Gives (expr .unary) ys e (Behind zs)) :
    Gives (unaryForm expr op) xs (.unary op e) (Behind zs) := by
  obtain ⟨_, _, rfl⟩ := hk
  exact .advance_bind (.bind he fun t => .pure ⟨t, rfl⟩)

/-- Parentheses leave no trace in the tree. -/
theorem groupForm_gives {e : Expr} (hopen : Tok .lparen xs ys) (he : Gives (expr .lowest) ys e (Behind zs))
    (hclose : Tok .rparen zs us) : Gives (groupForm expr) xs e (Behind us) := by
  obtain ⟨_, _, rfl⟩ := hopen
  exact .advance_bind (.bind he fun t => .take_bind hclose fun t => .pure ⟨t, rfl⟩)

/-- A condition in parentheses, and the block that it guards. -/
theorem branch_gives {condition : Expr} {body : List Stmt} (hopen : Tok .lparen xs ys)
    (hcondition : Gives (expr .lowest) ys condition (Behind zs)) (hclose : Tok .rparen zs us)
    (hbody : ∀ t, Gives (bracedBlock block) (t :: us) body (Behind ws)) (t : Token) :
    Gives (branch expr block) (t :: xs) ⟨condition, body⟩ (Behind ws) := by
  refine .take_bind hopen fun t => .advance_bind (.bind hcondition fun t => .take_bind hclose fun t => ?_)
  exact .bind (hbody t) fun t => .pure ⟨t, rfl⟩

/-- Branches end where no `elif` follows. -/
theorem lastBranch_gives (h : kindOf xs ≠ .kwElif) (hm : 0 < m) (t : Token) :
    Gives (moreBranches expr block m) (t :: xs) [] (Behind xs) := by
  obtain ⟨m, rfl⟩ := Nat.exists_eq_add_one.2 hm
  refine .peek_bind ?_
  rw [if_neg h]
  exact .pure ⟨t, rfl⟩

/-- Each `elif` adds a branch, and the bound on their number goes down. -/
theorem furtherBranch_gives {b : Branch} {bs : List Branch} (helif : Tok .kwElif xs ys)
    (hb : ∀ t, Gives (branch expr block) (t :: ys) b (Behind zs))
    (hbs : ∀ t, Gives (moreBranches expr block m) (t :: zs) bs (Behind us)) (t : Token) :
    Gives (moreBranches expr block (m + 1)) (t :: xs) (b :: bs) (Behind us) := by
  refine .peek_bind ?_
  rw [if_pos helif.kindOf_eq]
  exact .skip_bind helif fun t => .bind (hb t) fun t => .bind (hbs t) fun t => .pure ⟨t, rfl⟩

/-- The end of a conditional, from the token before it. -/
inductive OtherwiseGives (block : Step (List Stmt)) : List Token → Option (List Stmt) → List Token → Prop
  | none {xs : List Token} : kindOf xs ≠ .kwElse → OtherwiseGives block xs none xs
  | some {body : List Stmt} {xs ys zs : List Token} : Tok .kwElse xs ys →
      (∀ t, Gives (bracedBlock block) (t :: ys) body (Behind zs)) → OtherwiseGives block xs (some body) zs

/-- `if`, further branches, and the block of `else` where there is one. -/
theorem conditionalForm_gives {b : Branch} {bs : List Branch} {last : Option (List Stmt)} (hif : Tok .kwIf xs ys)
    (hb : ∀ t, Gives (branch expr block) (t :: ys) b (Behind zs))
    (hbs : ∀ t, Gives (moreBranches expr block n) (t :: zs) bs (Behind us))
    (hlast : OtherwiseGives block us last ws) :
    Gives (conditionalForm n expr block) xs (.conditional (b :: bs) last) (Behind ws) := by
  obtain ⟨_, _, rfl⟩ := hif
  refine .bind (hb _) fun t => .bind (hbs t) fun t => .peek_bind ?_
  cases hlast with
  | none helse =>
    rw [if_neg helse]
    exact .pure ⟨t, rfl⟩
  | some helse hbody =>
    rw [if_pos helse.kindOf_eq]
    exact .skip_bind helse fun t => .bind (hbody t) fun t => .pure ⟨t, rfl⟩

/-- Pairs end at the closing brace. -/
theorem noPairs_gives (h : kindOf xs = .rbrace) (hm : 0 < m) (t : Token) :
    Gives (hashPairs expr m) (t :: xs) [] (Behind xs) := by
  obtain ⟨m, rfl⟩ := Nat.exists_eq_add_one.2 hm
  refine .peek_bind ?_
  rw [if_pos h]
  exact .pure ⟨t, rfl⟩

/-- A key, a colon, a value, and a comma unless the brace follows. The comma may also stand before the brace. -/
theorem pair_gives {key value : Expr} {pairs : List KeyValue} (hopen : kindOf xs ≠ .rbrace)
    (hkey : Gives (expr .lowest) xs key (Behind ys)) (hcolon : Tok .colon ys zs)
    (hvalue : Gives (expr .lowest) zs value (Behind us))
    (hpairs : ∀ t, Gives (hashPairs expr m) (t :: vs) pairs (Behind ws))
    (hcomma : if kindOf us = .rbrace then us = vs else Tok .comma us vs) (t : Token) :
    Gives (hashPairs expr (m + 1)) (t :: xs) (⟨key, value⟩ :: pairs) (Behind ws) := by
  refine .peek_bind ?_
  rw [if_neg hopen]
  refine .advance_bind (.bind hkey fun t => .take_bind hcolon fun t => .advance_bind (.bind hvalue fun t => ?_))
  refine .peek_bind ?_
  split at hcomma
  · next hclose =>
    subst hcomma
    rw [if_neg (not_not_intro hclose)]
    exact .bind (hpairs t) fun t => .pure ⟨t, rfl⟩
  · next hclose =>
    rw [if_pos hclose]
    exact .take_bind hcomma fun t => .bind (hpairs t) fun t => .pure ⟨t, rfl⟩

theorem hashForm_gives {pairs : List KeyValue} (hopen : Tok .lbrace xs ys)
    (hpairs : ∀ t, Gives (hashPairs expr n) (t :: ys) pairs (Behind zs)) (hclose : Tok .rbrace zs us) :
    Gives (hashForm n expr) xs (.hash pairs) (Behind us) := by
  obtain ⟨_, _, rfl⟩ := hopen
  exact .bind (hpairs _) fun t => .take_bind hclose fun t => .pure ⟨t, rfl⟩

/-- A loop from one number to another. -/
theorem rangeFor_gives {start stop : Expr} {body : List Stmt} {xs₀ xs₁ xs₂ xs₃ xs₄ xs₅ xs₆ xs₇ xs₈ xs₉ : List Token}
    (hfor : Tok .kwFor xs₀ xs₁) (hopen : Tok .lparen xs₁ xs₂) (hx : Lit .ident x xs₂ xs₃)
    (hfrom : Tok .kwFrom xs₃ xs₄) (hstart : Gives (expr .lowest) xs₄ start (Behind xs₅)) (hto : Tok .kwTo xs₅ xs₆)
    (hstop : Gives (expr .lowest) xs₆ stop (Behind xs₇)) (hclose : Tok .rparen xs₇ xs₈)
    (hbody : ∀ t, Gives (bracedBlock block) (t :: xs₈) body (Behind xs₉)) :
    Gives (loopForm expr block) xs₀ (.rangeFor x start stop body) (Behind xs₉) := by
  obtain ⟨_, _, rfl⟩ := hfor
  refine .take_bind hopen fun t => .bind (Gives.name hx t) fun t => .peek_bind ?_
  rw [hfrom.kindOf_eq]
  refine .skip_bind hfrom fun t => .advance_bind (.bind hstart fun t => .take_bind hto fun t => .advance_bind ?_)
  exact .bind hstop fun t => .take_bind hclose fun t => .bind (hbody t) fun t => .pure ⟨t, rfl⟩

/-- A loop over what a name is bound to. -/
theorem collectionFor_gives {collection : String} {body : List Stmt} {xs₀ xs₁ xs₂ xs₃ xs₄ xs₅ xs₆ xs₇ : List Token}
    (hfor : Tok .kwFor xs₀ xs₁) (hopen : Tok .lparen xs₁ xs₂) (hx : Lit .ident x xs₂ xs₃) (hin : Tok .kwIn xs₃ xs₄)
    (hcollection : Lit .ident collection xs₄ xs₅) (hclose : Tok .rparen xs₅ xs₆)
    (hbody : ∀ t, Gives (bracedBlock block) (t :: xs₆) body (Behind xs₇)) :
    Gives (loopForm expr block) xs₀ (.collectionFor x collection body) (Behind xs₇) := by
  obtain ⟨_, _, rfl⟩ := hfor
  refine .take_bind hopen fun t => .bind (Gives.name hx t) fun t => .peek_bind ?_
  rw [hin.kindOf_eq]
  refine .skip_bind hin fun t => .bind (Gives.name hcollection t) fun t => .take_bind hclose fun t => ?_
  exact .bind (hbody t) fun t => .pure ⟨t, rfl⟩

/-- A new instance, with the arguments of its constructor. -/
theorem newForm_gives {className : String} {es : List Expr} (hnew : Tok .kwNew xs ys)
    (hname : Lit .ident className ys zs) (hopen : Tok .lparen zs us)
    (hes : ∀ t, Gives (arguments n expr .rparen) (t :: us) es (Behind ws)) :
    Gives (newForm n expr) xs (.new className es) (Behind ws) := by
  obtain ⟨_, _, rfl⟩ := hnew
  refine .bind (Gives.name hname _) fun t => .take_bind hopen fun t => ?_
  exact .bind (hes t) fun t => .pure ⟨t, rfl⟩

/-! ## Continuations -/

/-- An expression ends where no operator binds tighter than the level at which it is read. -/
theorem stop_gives {p : Precedence} {left : Expr} (h : Stops p xs) (hm : 0 < m) (t : Token) :
    Gives (continuations n expr p m left) (t :: xs) left (Behind xs) := by
  obtain ⟨m, rfl⟩ := Nat.exists_eq_add_one.2 hm
  refine .peek_bind ?_
  split
  · exact .pure ⟨t, rfl⟩
  · next c hc =>
    rw [if_neg (h c hc)]
    exact .pure ⟨t, rfl⟩

/-- An operator above the level makes the expression longer, and reading goes on with the longer one. -/
theorem continue_gives {p : Precedence} {left longer e : Expr} {c : Continuation}
    (hc : Continuation.ofKind? (kindOf xs) = some c) (hp : p < c.precedence)
    (hlonger : Gives (continueWith n expr left c) xs longer (Behind ys))
    (h : ∀ t, Gives (continuations n expr p m longer) (t :: ys) e (Behind zs)) (t : Token) :
    Gives (continuations n expr p (m + 1) left) (t :: xs) e (Behind zs) := by
  refine .peek_bind ?_
  rw [hc]
  dsimp only
  rw [if_pos hp]
  exact .advance_bind (.bind hlonger h)

/-- The right operand is read at the level of its operator, so that equal operators group to the left. -/
theorem operator_gives {op : BinaryOp} {left right : Expr} (hk : Tok k xs ys)
    (hright : Gives (expr op.precedence) ys right (Behind zs)) :
    Gives (continueWith n expr left (.operator op)) xs (.binary op left right) (Behind zs) := by
  obtain ⟨_, _, rfl⟩ := hk
  exact .advance_bind (.bind hright fun t => .pure ⟨t, rfl⟩)

theorem call_gives {left : Expr} {es : List Expr} (hopen : Tok .lparen xs ys)
    (hes : ∀ t, Gives (arguments n expr .rparen) (t :: ys) es (Behind zs)) :
    Gives (continueWith n expr left .call) xs (.call left es) (Behind zs) := by
  obtain ⟨_, _, rfl⟩ := hopen
  exact .bind (hes _) fun t => .pure ⟨t, rfl⟩

theorem index_gives {left i : Expr} (hopen : Tok .lbracket xs ys) (hi : Gives (expr .lowest) ys i (Behind zs))
    (hclose : Tok .rbracket zs us) : Gives (continueWith n expr left .index) xs (.index left i) (Behind us) := by
  obtain ⟨_, _, rfl⟩ := hopen
  exact .advance_bind (.bind hi fun t => .take_bind hclose fun t => .pure ⟨t, rfl⟩)

/-! ## Statements -/

/-- The initial value in a binding, from the token before it. -/
inductive InitialGives (expr : Precedence → Step Expr) : List Token → Expr → List Token → Prop
  | none {xs : List Token} : kindOf xs ≠ .assign → InitialGives expr xs .null xs
  | some {e : Expr} {xs ys zs : List Token} : Tok .assign xs ys → Gives (expr .lowest) ys e (Behind zs) →
      InitialGives expr xs e zs

/-- An expression that is there is given. -/
theorem exprOrNull_gives {e : Expr} (h : Gives (expr .lowest) xs e (Behind ys)) :
    Gives (exprOrNull expr) xs e (Behind ys) := .attempt_bind h fun t => .pure ⟨t, rfl⟩

/-- A name, an initial value or none, and a semicolon that may be left out. -/
theorem binding_gives {e : Expr} (hx : Lit .ident x xs ys) (he : InitialGives expr ys e zs)
    (hsemicolon : Semicolon .greedy False zs us) (t : Token) :
    Gives (binding expr) (t :: xs) (x, e) (Behind us) := by
  have hend (t : Token) : Gives
      (do
        Step.passSemicolon
        return (x, e)) (t :: zs) (x, e) (Behind us) :=
    .bind (Gives.passSemicolon hsemicolon t) fun t => .pure ⟨t, rfl⟩
  refine .bind (Gives.name hx t) fun t => .peek_bind ?_
  cases he with
  | none hassign =>
    rw [if_neg hassign]
    exact .pure_bind (hend t)
  | some hassign he =>
    rw [if_pos hassign.kindOf_eq]
    exact .skip_bind hassign fun t => .advance_bind (.bind (exprOrNull_gives he) hend)

/-- A declared function is public if its name says so. -/
theorem functionDecl_gives {literal : FunctionLit} (hname : Lit .ident x xs ys)
    (hliteral : ∀ t, Gives (functionLit n block) (t :: ys) literal (Behind zs))
    (hsemicolon : Semicolon .greedy False zs us) (t : Token) :
    Gives (functionDecl n block) (t :: xs) ⟨x, literal, isPublicName x⟩ (Behind us) := by
  refine .bind (Gives.name hname t) fun t => .bind (hliteral t) fun t => ?_
  exact .bind (Gives.passSemicolon hsemicolon t) fun t => .pure ⟨t, rfl⟩

/-- A parameter of a constructor, which may be bound to a field. -/
theorem constructorParam_gives {p : ConstructorParam} (h : Param xs p ys) :
    Gives constructorParam xs p (Behind ys) := by
  cases h with
  | name hx =>
    obtain ⟨_, rfl⟩ := hx
    exact .kind_bind (.literal_bind (.pure ⟨_, rfl⟩))
  | field hthis hdot hx =>
    obtain ⟨_, _, rfl⟩ := hthis
    exact .kind_bind (.take_bind hdot fun t => .bind (Gives.name hx t) fun t => .pure ⟨t, rfl⟩)

/-- Parameters in parentheses and a body. -/
theorem constructor_gives {params : List ConstructorParam} {body : List Stmt} (hparams : Params xs params ys)
    (hn : xs.length < n) (hbody : ∀ t, Gives (bracedBlock block) (t :: ys) body (Behind zs)) (t : Token) :
    Gives (constructor n block) (t :: xs) ⟨params, body⟩ (Behind zs) := by
  obtain ⟨us, hopen, hparams⟩ := hparams
  have hparams : Items
      (ItemGives
        (do
          Step.advance
          constructorParam) .rparen) .rparen us params ys :=
    hparams.mono fun h => ⟨by cases h with
      | name hx => rw [hx.kindOf_eq]; nofun
      | field hthis => rw [hthis.kindOf_eq]; nofun, h.length, fun t => .advance_bind (constructorParam_gives h)⟩
  have := hopen.length
  refine .take_bind hopen fun t => .bind (items_gives hparams (by omega) nofun t) fun t => ?_
  exact .bind (hbody t) fun t => .pure ⟨t, rfl⟩

/-! ## Classes -/

theorem field_gives {decl : ClassDecl} {e : Expr} (hvar : Tok .kwVar xs ys)
    (h : ∀ t, Gives (binding expr) (t :: ys) (x, e) (Behind zs)) :
    Gives (member n expr block decl) xs { decl with fields := decl.fields ++ [⟨x, e⟩] } (Behind zs) := by
  obtain ⟨_, _, rfl⟩ := hvar
  exact .kind_bind (.attempt_bind (h _) fun t => .pure ⟨t, rfl⟩)

theorem method_gives {decl : ClassDecl} {method : FunctionDecl} (hfunc : Tok .kwFunc xs ys)
    (h : ∀ t, Gives (functionDecl n block) (t :: ys) method (Behind zs)) :
    Gives (member n expr block decl) xs { decl with methods := decl.methods ++ [method] } (Behind zs) := by
  obtain ⟨_, _, rfl⟩ := hfunc
  exact .kind_bind (.attempt_bind (h _) fun t => .pure ⟨t, rfl⟩)

/-- The constructor is taken where the class has none so far. -/
theorem init_gives {decl : ClassDecl} {init : Constructor} (hdecl : decl.init = none) (hinit : Tok .kwInit xs ys)
    (h : ∀ t, Gives (constructor n block) (t :: ys) init (Behind zs)) :
    Gives (member n expr block decl) xs { decl with init := some init } (Behind zs) := by
  obtain ⟨_, _, rfl⟩ := hinit
  refine .kind_bind ?_
  dsimp only [kindOf]
  rw [if_neg (by rw [hdecl]; nofun)]
  exact .attempt_bind (h _) fun t => .pure ⟨t, rfl⟩

/-- A lone semicolon adds no member. -/
theorem empty_gives {decl : ClassDecl} (h : Tok .semicolon xs ys) :
    Gives (member n expr block decl) xs decl (Behind ys) := by
  obtain ⟨_, _, rfl⟩ := h
  exact .kind_bind (.pure ⟨_, rfl⟩)

/-- Members end at the closing brace, which is left to the class. -/
theorem noMembers_gives {decl : ClassDecl} (h : kindOf xs = .rbrace) (hm : 0 < m) :
    Gives (members n expr block m decl) xs decl (· = xs) := by
  obtain ⟨m, rfl⟩ := Nat.exists_eq_add_one.2 hm
  refine .kind_bind ?_
  rw [h]
  exact .pure rfl

/-- One member after the other, each added to the declaration so far. -/
theorem members_gives {decl decl' decl'' : ClassDecl} (hclose : kindOf xs ≠ .rbrace) (heof : kindOf xs ≠ .eof)
    (h : Gives (member n expr block decl) xs decl' (Behind ys))
    (h' : Gives (members n expr block m decl') ys decl'' (· = zs)) :
    Gives (members n expr block (m + 1) decl) xs decl'' (· = zs) := by
  refine .kind_bind ?_
  split
  · contradiction
  · contradiction
  · exact .bind h fun t => .advance_bind h'

/-- A class starts without members and has in the end what its body adds. -/
theorem classDecl_gives {decl : ClassDecl} (hname : Lit .ident x xs ys) (hopen : Tok .lbrace ys zs)
    (h : Gives (members n expr block n ⟨x, [], [], none⟩) zs decl (· = us)) (hclose : Tok .rbrace us vs) (t : Token) :
    Gives (classDecl n expr block) (t :: xs) decl (Behind vs) := by
  refine .bind (Gives.name hname t) fun t => .take_bind hopen fun t => .advance_bind ?_
  obtain ⟨rest, h, rfl⟩ := h
  obtain ⟨_, _, rfl⟩ := hclose
  exact ⟨_, h, _, rfl⟩

/-! ## Statements of all kinds -/

/-- The value of a `return`. -/
inductive ResultGives (expr : Precedence → Step Expr) : List Token → Expr → List Token → Prop
  | none {xs : List Token} : kindOf xs = .semicolon ∨ kindOf xs = .rbrace ∨ kindOf xs = .eof →
      ResultGives expr xs .null xs
  | some {e : Expr} {xs ys : List Token} : startsOperand (kindOf xs) → Gives (expr .lowest) xs e (Behind ys) →
      ResultGives expr xs e ys

/-- `return` with a result, or with none where the statement ends at once. -/
theorem returnStatement_gives {e : Expr} (he : ResultGives expr xs e ys) (hsemicolon : Semicolon .greedy False ys zs)
    (t : Token) : Gives (returnStatement expr) (t :: xs) (.ret e) (Behind zs) := by
  have hend (t : Token) : Gives
      (do
        Step.passSemicolon
        return Stmt.ret e) (t :: ys) (.ret e) (Behind zs) :=
    .bind (Gives.passSemicolon hsemicolon t) fun t => .pure ⟨t, rfl⟩
  refine .peek_bind ?_
  cases he with
  | none h =>
    obtain h | h | h := h
    all_goals
      rw [h]
      exact .pure_bind (hend t)
  | some hstart he =>
    dsimp only
    split
    case h_4 => exact .advance_bind (.bind (exprOrNull_gives he) hend)
    all_goals next h => rw [h] at hstart; cases hstart

theorem expressionStatement_gives {e : Expr} (he : Gives (expr .lowest) xs e (Behind ys))
    (hsemicolon : Semicolon .greedy False ys zs) :
    Gives (expressionStatement expr) xs (.expr e) (Behind zs) :=
  .bind (exprOrNull_gives he) fun t => .bind (Gives.passSemicolon hsemicolon t) fun t => .pure ⟨t, rfl⟩

/-- What starts neither with a keyword of a statement nor with a named function is an expression. -/
theorem statement_gives {s : Stmt} {Q : List Token → Prop} (hstart : startsOperand (kindOf xs))
    (hfunc : kindOf xs = .kwFunc → kindOf xs.tail ≠ .ident) (h : Gives (expressionStatement expr) xs s Q) :
    Gives (statement n expr block) xs s Q := by
  cases xs with
  | nil => cases hstart
  | cons t ys =>
    refine .kind_bind (.peek_bind ?_)
    split
    case h_3 hk hident => exact absurd hident (hfunc hk)
    case h_5 => exact h
    all_goals next hk => rw [hk] at hstart; cases hstart

/-- Statements end where their block does. -/
theorem noStatements_gives {ends : TokenKind → Bool} (h : ends (kindOf xs)) (hm : 0 < m) :
    Gives (statements n expr block ends m) xs [] (· = xs) := by
  obtain ⟨m, rfl⟩ := Nat.exists_eq_add_one.2 hm
  refine .kind_bind ?_
  rw [if_pos h]
  exact .pure rfl

/-- One statement after the other. -/
theorem statements_gives {ends : TokenKind → Bool} {s : Stmt} {rest : List Stmt} (hends : ends (kindOf xs) = false)
    (h : Gives (statement n expr block) xs s (Behind ys))
    (h' : Gives (statements n expr block ends m) ys rest (· = zs)) :
    Gives (statements n expr block ends (m + 1)) xs (s :: rest) (· = zs) := by
  refine .kind_bind ?_
  rw [if_neg (by rw [hends]; nofun)]
  exact .attempt_bind h fun t => .advance_bind (.bind_at h' (.pure rfl))

/-- The statements between two braces. -/
theorem blockBody_gives {body : List Stmt} (hopen : Tok .lbrace xs ys)
    (h : Gives (statements n expr block (fun k => k == .rbrace || k == .eof) n) ys body (· = zs))
    (hclose : Tok .rbrace zs us) : Gives (blockBody n expr block) xs body (Behind us) := by
  obtain ⟨_, _, rfl⟩ := hopen
  obtain ⟨_, _, rfl⟩ := hclose
  exact .advance_bind (.bind_at h (.kind_bind (.pure ⟨_, rfl⟩)))

end Handlers

end Parse

end Pron
