import Pron.Proofs.Syntax.Words
import Pron.Proofs.Syntax.Settles

/-!
# What the parser accepts

Where a handler leaves no error, the tokens it has passed are a phrase of the grammar and its node is the tree of a
derivation. A handler that starts with its first token as the current one reads from `xs`, one that starts with the
token before from `xs.tail`; both leave their last token current, so what follows is the tail of the rest.
-/

namespace Pron

namespace Parse

open Step (kindOf Ensures)
open Grammar

variable {α : Type} {k : TokenKind} {n m : Nat} {xs : List Token}

/-! ## Tokens and lists -/

/-- A token of a known kind, with whatever text it has. -/
theorem lit_of_kindOf (h : kindOf xs = k) (hk : k ≠ .eof) :
    Lit k ((xs.head?.map Token.literal).getD "") xs xs.tail := by
  cases xs with
  | nil => exact absurd h.symm hk
  | cons t ts =>
    subst h
    exact ⟨t.line, rfl⟩

theorem tok_of_kindOf (h : kindOf xs = k) (hk : k ≠ .eof) : Tok k xs xs.tail := ⟨_, lit_of_kindOf h hk⟩

/-- The name that is taken is the text of the identifier that was passed. -/
theorem name_ensures : Ensures Step.name xs fun x ys => Lit .ident x xs.tail ys.tail := by
  refine .expect_bind fun h => .literal_bind (.pure ?_)
  exact lit_of_kindOf h nofun

/-- A semicolon was passed, or none stood there. -/
theorem passSemicolon_ensures {needed : Prop} (hneeded : ¬needed) :
    Ensures Step.passSemicolon xs fun _ ys => Semicolon .greedy needed xs.tail ys.tail := by
  refine .peek_bind ?_
  split
  · next h =>
    refine Ensures.advance.mono fun _ ys hy => ?_
    rw [hy]
    exact .there (tok_of_kindOf h nofun)
  · next h => exact .pure (.missing hneeded fun _ => h)

section Lists

variable {item : Step α} {reads : List Token → α → List Token → Prop}
  (hitem : ∀ ys, Ensures item ys fun a zs => reads ys.tail a zs.tail)

include hitem

/-- Commas stand between the items, and none behind the last one. -/
theorem moreItems_ensures (m : Nat) (xs : List Token) :
    Ensures (Step.moreItems item m) xs fun as ys => Further reads xs.tail as ys.tail := by
  induction m generalizing xs with
  | zero => exact .exhausted
  | succ m ih =>
    refine .peek_bind ?_
    split
    · next hcomma =>
      refine .advance_bind (.bind (hitem _) fun a ys ha => .bind (ih ys) fun as zs has => .pure ?_)
      exact .cons (tok_of_kindOf hcomma nofun) ha has
    · exact .pure .nil

/-- A list that is closed, so it cannot have ended with the tokens. -/
theorem items_ensures {close : TokenKind} (hclose : close ≠ .eof) :
    Ensures (Step.items n close item) xs fun as ys => Items reads close xs.tail as ys.tail := by
  refine .peek_bind ?_
  split
  · next h => exact .advance_bind (.pure (.none (tok_of_kindOf h hclose)))
  · refine .bind (hitem xs) fun a ys ha => .bind (moreItems_ensures hitem n ys) fun as zs has => ?_
    exact .expect_bind fun h => .pure (.some ha has (tok_of_kindOf h hclose))

end Lists

/-- Items that are expressions are arguments. -/
theorem reads_arguments {rules : Rules} {close : TokenKind} {es : List Expr} {ys : List Token}
    (h : Items (Reads rules (.expression .lowest)) close xs es ys) :
    ∃ zs, Reads rules .arguments xs es zs ∧ Tok close zs ys := by
  cases h with
  | none hclose => exact ⟨xs, .noArguments, hclose⟩
  | some he hes hclose =>
    refine ⟨_, .someArguments he ?_, hclose⟩
    clear he hclose
    induction hes with
    | nil => exact .lastArgument
    | cons hcomma he _ ih => exact .furtherArgument hcomma he ih

/-- Names between commas, in parentheses. -/
theorem parameters_ensures : Ensures (parameters n) xs fun names ys => Parameters xs.tail names ys.tail := by
  refine .expect_bind fun h => ?_
  have hnames : Ensures (Step.items n .rparen Step.name) xs.tail fun names ys =>
      Items (fun xs x ys => Lit .ident x xs ys) .rparen xs.tail.tail names ys.tail :=
    items_ensures (fun _ => name_ensures) (by decide)
  exact hnames.mono fun names ys hitems => ⟨_, tok_of_kindOf h nofun, hitems⟩

/-! ## Handlers -/

section Handlers

variable {expr : Precedence → Step Expr} {block : Step (List Stmt)}
  (hexpr : ∀ p xs, Ensures (expr p) xs fun e ys => Reads .greedy (.expression p) xs e ys.tail)
  (hblock : ∀ xs, kindOf xs = .lbrace → Ensures block xs fun body ys => Reads .greedy .block xs body ys.tail)

include hexpr

/-- Without an error the missing expression was not put in, since that would have left one. -/
theorem exprOrNull_ensures :
    Ensures (exprOrNull expr) xs fun e ys => Reads .greedy (.expression .lowest) xs e ys.tail :=
  .attempt_bind (hexpr _ _) fun _ _ he => .pure he

/-- Expressions between commas, closed by the token that was asked for. -/
theorem arguments_ensures {close : TokenKind} (hclose : close ≠ .eof) : Ensures (arguments n expr close) xs fun es ys =>
    ∃ zs, Reads .greedy .arguments xs.tail es zs ∧ Tok close zs ys.tail := by
  have hitem (ys : List Token) : Ensures
      (do
        Step.advance
        expr .lowest) ys fun e zs => Reads .greedy (.expression .lowest) ys.tail e zs.tail :=
    .advance_bind (hexpr _ _)
  refine (items_ensures hitem hclose).mono fun es ys hes => ?_
  exact reads_arguments hes

omit hexpr in
include hblock in
/-- A block that begins with its brace. -/
theorem bracedBlock_ensures :
    Ensures (bracedBlock block) xs fun body ys => Reads .greedy .block xs.tail body ys.tail :=
  .expect_bind fun h => hblock _ h

omit hexpr in
include hblock in
theorem functionLit_ensures :
    Ensures (functionLit n block) xs fun literal ys => Reads .greedy .function xs.tail literal ys.tail := by
  refine .bind parameters_ensures fun names ys hnames => ?_
  exact .bind (bracedBlock_ensures hblock) fun body zs hbody => .pure (.functionLit hnames hbody)

/-! ## Expressions -/

/-- A name, a step of it or a method call, told apart by the token behind the name. -/
theorem nameForm_ensures (h : kindOf xs = .ident) :
    Ensures (nameForm n expr) xs fun e ys => Reads .greedy .operand xs e ys.tail := by
  have hx := lit_of_kindOf h nofun
  refine .literal_bind (.peek_bind ?_)
  split
  · next hdot =>
    refine .advance_bind (.bind name_ensures fun method ys hmethod => .expect_bind fun hparen => ?_)
    refine .bind (arguments_ensures hexpr (by decide)) fun arguments zs ⟨us, harguments, hclose⟩ => .pure ?_
    exact .methodCall hx (tok_of_kindOf hdot nofun) hmethod (tok_of_kindOf hparen nofun) harguments hclose
  · next hstep => exact .advance_bind (.pure (.increment hx (tok_of_kindOf hstep nofun)))
  · next hstep => exact .advance_bind (.pure (.decrement hx (tok_of_kindOf hstep nofun)))
  · next hdot hincrement hdecrement =>
    exact .pure (.name hx fun _ => ⟨hdot, hincrement, hdecrement⟩)

omit hexpr in
theorem thisForm_ensures (h : kindOf xs = .kwThis) :
    Ensures thisForm xs fun e ys => Reads .greedy .operand xs e ys.tail := by
  refine .expect_bind fun hdot => .bind name_ensures fun x ys hx => .pure ?_
  exact .thisName (tok_of_kindOf h nofun) (tok_of_kindOf hdot nofun) hx

omit hexpr in
/-- Digits that were in range. -/
theorem integerForm_ensures (h : kindOf xs = .int) :
    Ensures integerForm xs fun e ys => Reads .greedy .operand xs e ys.tail := by
  refine .literal_bind ?_
  split
  · next hread => exact .pure (.integer (lit_of_kindOf h nofun) hread)
  · exact .report_bind

omit hexpr in
/-- A text that was read as a number. -/
theorem realForm_ensures (h : kindOf xs = .real) :
    Ensures realForm xs fun e ys => Reads .greedy .operand xs e ys.tail := by
  refine .literal_bind ?_
  split
  · next hread => exact .pure (.real (lit_of_kindOf h nofun) hread)
  · exact .report_bind

/-- An operator in front of an operand at the level `unary`. -/
theorem unaryForm_ensures {op : UnaryOp} (hop : unary? k = some op) (h : kindOf xs = k) :
    Ensures (unaryForm expr op) xs fun e ys => Reads .greedy .operand xs e ys.tail := by
  have hk : k ≠ .eof := by
    rintro rfl
    cases hop
  exact .advance_bind (.bind (hexpr _ _) fun e ys he => .pure (.unary hop (tok_of_kindOf h hk) he))

theorem groupForm_ensures (h : kindOf xs = .lparen) :
    Ensures (groupForm expr) xs fun e ys => Reads .greedy .operand xs e ys.tail := by
  refine .advance_bind (.bind (hexpr _ _) fun e ys he => .expect_bind fun hparen => .pure ?_)
  exact .group (tok_of_kindOf h nofun) he (tok_of_kindOf hparen nofun)

include hblock in
/-- A condition in parentheses and a block. -/
theorem branch_ensures :
    Ensures (branch expr block) xs fun b ys => Reads .greedy .branch xs.tail b ys.tail := by
  refine .expect_bind fun hopen => .advance_bind (.bind (hexpr _ _) fun condition ys hcondition => ?_)
  refine .expect_bind fun hclose => .bind (bracedBlock_ensures hblock) fun body zs hbody => .pure ?_
  exact .branch (tok_of_kindOf hopen nofun) hcondition (tok_of_kindOf hclose nofun) hbody

include hblock in
/-- Branches up to the first token that is no `elif`. -/
theorem moreBranches_ensures (m : Nat) (xs : List Token) :
    Ensures (moreBranches expr block m) xs fun bs ys => Reads .greedy .furtherBranches xs.tail bs ys.tail := by
  induction m generalizing xs with
  | zero => exact .exhausted
  | succ m ih =>
    refine .peek_bind ?_
    split
    · next helif =>
      refine .advance_bind (.bind (branch_ensures hexpr hblock) fun b ys hb => .bind (ih ys) fun bs zs hbs => .pure ?_)
      exact .furtherBranch (tok_of_kindOf helif nofun) hb hbs
    · next helif => exact .pure (.lastBranch fun _ => helif)

include hblock in
theorem conditionalForm_ensures (h : kindOf xs = .kwIf) :
    Ensures (conditionalForm n expr block) xs fun e ys => Reads .greedy .operand xs e ys.tail := by
  refine .bind (branch_ensures hexpr hblock) fun first ys hfirst => ?_
  refine .bind (moreBranches_ensures hexpr hblock _ _) fun more zs hmore => .peek_bind ?_
  have hif := tok_of_kindOf h nofun
  split
  · next helse =>
    refine .advance_bind (.bind (bracedBlock_ensures hblock) fun body us hbody => .pure ?_)
    exact .conditional hif hfirst hmore (.else (tok_of_kindOf helse nofun) hbody)
  · next helse => exact .pure (.conditional hif hfirst hmore (.noElse fun _ => helse))

omit hexpr in
/-- No pair is read before a closing brace. -/
theorem hashPairs_nil (h : kindOf xs.tail = .rbrace) :
    Ensures (hashPairs expr m) xs fun pairs ys => pairs = [] ∧ ys = xs := by
  cases m with
  | zero => exact .exhausted
  | succ m =>
    refine .peek_bind ?_
    rw [if_pos h]
    exact .pure ⟨rfl, rfl⟩

/-- Pairs up to the closing brace, which alone ends them without an error. -/
theorem hashPairs_ensures (m : Nat) (xs : List Token) : Ensures (hashPairs expr m) xs fun pairs ys =>
    Reads .greedy .pairs xs.tail pairs ys.tail ∧ kindOf ys.tail = .rbrace := by
  induction m generalizing xs with
  | zero => exact .exhausted
  | succ m ih =>
    refine .peek_bind ?_
    split
    · next hclose => exact .pure ⟨.noPairs, hclose⟩
    refine .advance_bind (.bind (hexpr _ _) fun key ys hkey => .expect_bind fun hcolon => .advance_bind ?_)
    refine .bind (hexpr _ _) fun value zs hvalue => .peek_bind ?_
    have hcolon := tok_of_kindOf hcolon nofun
    split
    · refine .expect_bind fun hcomma => .bind (ih _) fun pairs us ⟨hpairs, hclose⟩ => .pure ⟨?_, hclose⟩
      exact .pair hkey hcolon hvalue (tok_of_kindOf hcomma nofun) hpairs
    · next hclose =>
      have hclose := Decidable.not_not.1 hclose
      refine .bind (hashPairs_nil hclose) fun pairs us ⟨hpairs, hus⟩ => .pure ?_
      subst hpairs hus
      exact ⟨.lastPair hkey hcolon hvalue, hclose⟩

theorem hashForm_ensures (h : kindOf xs = .lbrace) :
    Ensures (hashForm n expr) xs fun e ys => Reads .greedy .operand xs e ys.tail := by
  refine .bind (hashPairs_ensures hexpr _ _) fun pairs ys ⟨hpairs, hclose⟩ => .expect_bind fun _ => .pure ?_
  exact .hash (tok_of_kindOf h nofun) hpairs (tok_of_kindOf hclose nofun)

include hblock in
/-- A loop over numbers or over a collection, told apart by the token behind the name. -/
theorem loopForm_ensures (h : kindOf xs = .kwFor) :
    Ensures (loopForm expr block) xs fun e ys => Reads .greedy .operand xs e ys.tail := by
  have hfor := tok_of_kindOf h nofun
  refine .expect_bind fun hopen => .bind name_ensures fun x ys hx => .peek_bind ?_
  have hopen := tok_of_kindOf hopen nofun
  split
  · next hfrom =>
    refine .advance_bind (.advance_bind (.bind (hexpr _ _) fun start zs hstart => .expect_bind fun hto => ?_))
    refine .advance_bind (.bind (hexpr _ _) fun stop us hstop => .expect_bind fun hclose => ?_)
    refine .bind (bracedBlock_ensures hblock) fun body vs hbody => .pure ?_
    exact .rangeFor hfor hopen hx (tok_of_kindOf hfrom nofun) hstart (tok_of_kindOf hto nofun) hstop
      (tok_of_kindOf hclose nofun) hbody
  · next hin =>
    refine .advance_bind (.bind name_ensures fun collection zs hcollection => .expect_bind fun hclose => ?_)
    refine .bind (bracedBlock_ensures hblock) fun body us hbody => .pure ?_
    exact .collectionFor hfor hopen hx (tok_of_kindOf hin nofun) hcollection (tok_of_kindOf hclose nofun) hbody
  · exact .report_bind

theorem newForm_ensures (h : kindOf xs = .kwNew) :
    Ensures (newForm n expr) xs fun e ys => Reads .greedy .operand xs e ys.tail := by
  refine .bind name_ensures fun className ys hname => .expect_bind fun hopen => ?_
  refine .bind (arguments_ensures hexpr (by decide)) fun arguments zs ⟨us, harguments, hclose⟩ => .pure ?_
  exact .new (tok_of_kindOf h nofun) hname (tok_of_kindOf hopen nofun) harguments hclose

include hblock in
/-- The forms of operands. The last one takes any other token, and leaves an error. -/
theorem operand_ensures :
    Ensures (operand n expr block) xs fun e ys => Reads .greedy .operand xs e ys.tail := by
  refine .kind_bind ?_
  split
  case h_1 h => exact nameForm_ensures hexpr h
  case h_2 h => exact thisForm_ensures h
  case h_3 h => exact integerForm_ensures h
  case h_4 h => exact realForm_ensures h
  case h_5 h => exact .literal_bind (.pure (.text (lit_of_kindOf h nofun)))
  case h_6 h => exact .pure (.true (tok_of_kindOf h nofun))
  case h_7 h => exact .pure (.false (tok_of_kindOf h nofun))
  case h_8 h => exact unaryForm_ensures hexpr rfl h
  case h_9 h => exact unaryForm_ensures hexpr rfl h
  case h_10 h => exact groupForm_ensures hexpr h
  case h_11 h => exact conditionalForm_ensures hexpr hblock h
  case h_12 h =>
    refine .bind (functionLit_ensures hblock) fun literal ys hliteral => .pure ?_
    exact .function (tok_of_kindOf h nofun) hliteral
  case h_13 h =>
    refine .bind (arguments_ensures hexpr (by decide)) fun elements ys ⟨zs, helements, hclose⟩ => .pure ?_
    exact .array (tok_of_kindOf h nofun) helements hclose
  case h_14 h => exact hashForm_ensures hexpr h
  case h_15 h => exact loopForm_ensures hexpr hblock h
  case h_16 h => exact newForm_ensures hexpr h
  case h_17 => exact .report_bind

omit hexpr in
theorem kindOf_of_call (h : Continuation.ofKind? k = some .call) : k = .lparen := by
  cases k <;> first | rfl | cases h

omit hexpr in
theorem kindOf_of_index (h : Continuation.ofKind? k = some .index) : k = .lbracket := by
  cases k <;> first | rfl | cases h

/-- A longer expression, whatever it is continued with later, is a continuation of the shorter one. -/
theorem continueWith_ensures {p : Precedence} (left : Expr) {c : Continuation}
    (hc : Continuation.ofKind? (kindOf xs) = some c) (hp : p < c.precedence) :
    Ensures (continueWith n expr left c) xs fun longer ys => ∀ e zs, Reads .greedy (.chain p longer) ys.tail e zs →
      Reads .greedy (.chain p left) xs e zs := by
  have htok : Tok (kindOf xs) xs xs.tail := tok_of_kindOf rfl (kindOf_ne_eof_of_continuation hc)
  cases c with
  | operator op =>
    refine .advance_bind (.bind (hexpr _ _) fun right ys hright => .pure fun e zs he => ?_)
    exact .operator (by rw [binary?, hc]) (fun _ => hp) htok hright he
  | call =>
    refine .bind (arguments_ensures hexpr (by decide)) fun arguments ys ⟨us, harguments, hclose⟩ => ?_
    refine .pure fun e zs he => ?_
    rw [kindOf_of_call hc] at htok
    exact .call (fun _ => hp) htok harguments hclose he
  | index =>
    refine .advance_bind (.bind (hexpr _ _) fun i ys hi => .expect_bind fun hclose => .pure fun e zs he => ?_)
    rw [kindOf_of_index hc] at htok
    exact .index (fun _ => hp) htok hi (tok_of_kindOf hclose nofun) he

/-- What is left is a chain of operators and brackets as long as they bind tighter than the level. -/
theorem continuations_ensures (p : Precedence) (m : Nat) (left : Expr) (xs : List Token) :
    Ensures (continuations n expr p m left) xs fun e ys => Reads .greedy (.chain p left) xs.tail e ys.tail := by
  induction m generalizing left xs with
  | zero => exact .exhausted
  | succ m ih =>
    refine .peek_bind ?_
    split
    · next hnone =>
      exact .pure (.stop fun _ => stops_of_eq_none hnone)
    · next c hc =>
      split
      · next hp =>
        refine .advance_bind (.bind (continueWith_ensures hexpr left hc hp) fun longer ys hlonger => ?_)
        exact (ih longer ys).mono fun e zs he => hlonger e _ he
      · next hp =>
        exact .pure (.stop fun _ => (stops_iff hc).2 hp)

include hblock in
/-- An operand and all that continues it. -/
theorem expression_ensures (p : Precedence) :
    Ensures (expression n expr block p) xs fun e ys => Reads .greedy (.expression p) xs e ys.tail :=
  .bind (operand_ensures hexpr hblock) fun _ _ hleft =>
    (continuations_ensures hexpr p n _ _).mono fun _ _ he => .expression hleft he

/-! ## Statements -/

/-- A name, its value and a semicolon, as far as they are written. -/
theorem binding_ensures : Ensures (binding expr) xs fun (x, value) ys =>
    ∃ zs us, Lit .ident x xs.tail zs ∧ Reads .greedy .initial zs value us ∧ Semicolon .greedy False us ys.tail := by
  have hend {x : String} {value : Expr} {zs us : List Token} (hx : Lit .ident x xs.tail zs)
      (hvalue : Reads .greedy .initial zs value us.tail) : Ensures
      (do
        Step.passSemicolon
        return (x, value)) us fun (x, value) ys => ∃ zs us, Lit .ident x xs.tail zs ∧
          Reads .greedy .initial zs value us ∧ Semicolon .greedy False us ys.tail :=
    .bind (passSemicolon_ensures id) fun _ ys hsemicolon => .pure ⟨zs, _, hx, hvalue, hsemicolon⟩
  refine .bind name_ensures fun x ys hx => .peek_bind ?_
  dsimp only
  split
  · next hassign =>
    refine .advance_bind (.advance_bind (.bind (exprOrNull_ensures hexpr) fun value zs hvalue => ?_))
    exact hend hx (.value (tok_of_kindOf hassign nofun) hvalue)
  · next hassign => exact .pure_bind (hend hx (.noValue fun _ => hassign))

omit hexpr in
include hblock in
/-- A name and the function that it is given. -/
theorem functionDecl_ensures :
    Ensures (functionDecl n block) xs fun decl ys => Reads .greedy .declaration xs.tail decl ys.tail := by
  refine .bind name_ensures fun x ys hx => .bind (functionLit_ensures hblock) fun literal zs hliteral => ?_
  exact .bind (passSemicolon_ensures id) fun _ us hsemicolon => .pure (.declaration hx hliteral hsemicolon)

omit hexpr in
/-- A name, with `this` and a dot in front if it is that of a field. -/
theorem constructorParam_ensures : Ensures constructorParam xs fun param ys => Param xs param ys.tail := by
  refine .kind_bind ?_
  split
  · next hthis =>
    refine .expect_bind fun hdot => .bind name_ensures fun x ys hx => .pure ?_
    exact .field (tok_of_kindOf hthis nofun) (tok_of_kindOf hdot nofun) hx
  · next h => exact .literal_bind (.pure (.name (lit_of_kindOf h nofun)))
  · exact .report_bind

omit hexpr in
include hblock in
/-- Parameters and a body. -/
theorem constructor_ensures :
    Ensures (constructor n block) xs fun init ys => Reads .greedy .constructor xs.tail init ys.tail := by
  refine .expect_bind fun hopen => ?_
  have hparams : Ensures
      (Step.items n .rparen do
        Step.advance
        constructorParam) xs.tail fun params ys => Items Param .rparen xs.tail.tail params ys.tail :=
    items_ensures (fun _ => .advance_bind constructorParam_ensures) (by decide)
  refine .bind hparams fun params ys hparams => .bind (bracedBlock_ensures hblock) fun body zs hbody => .pure ?_
  exact .constructor ⟨_, tok_of_kindOf hopen nofun, hparams⟩ hbody

include hblock in
/-- One member, added to the class that was read so far. -/
theorem member_ensures (decl : ClassDecl) : Ensures (member n expr block decl) xs fun decl' ys =>
    ∃ member, Reads .greedy .member xs member ys.tail ∧ decl.Adds [member] decl' := by
  refine .kind_bind ?_
  split
  · next h =>
    refine .attempt_bind (binding_ensures hexpr) fun (x, value) ys ⟨zs, us, hx, hvalue, hsemicolon⟩ => .pure ?_
    exact ⟨.field ⟨x, value⟩, .field (tok_of_kindOf h nofun) hx hvalue hsemicolon, .ofField⟩
  · next h =>
    refine .attempt_bind (functionDecl_ensures hblock) fun method ys hmethod => .pure ?_
    exact ⟨.method method, .method (tok_of_kindOf h nofun) hmethod, .ofMethod⟩
  · next h =>
    split
    · exact .report_bind
    next hinit =>
    refine .attempt_bind (constructor_ensures hblock) fun init ys hconstructor => .pure ?_
    exact ⟨.init init, .init (tok_of_kindOf h nofun) hconstructor, .ofInit (Option.not_isSome_iff_eq_none.1 hinit)⟩
  · next h => exact .pure ⟨.empty, .empty (tok_of_kindOf h nofun), .ofEmpty⟩
  · exact .report_bind

include hblock in
/-- Members up to the closing brace, added in the order in which they stand. -/
theorem members_ensures (m : Nat) (decl : ClassDecl) (xs : List Token) :
    Ensures (members n expr block m decl) xs fun decl' ys =>
      ∃ members, Reads .greedy .members xs members ys ∧ kindOf ys = .rbrace ∧ decl.Adds members decl' := by
  induction m generalizing decl xs with
  | zero => exact .exhausted
  | succ m ih =>
    refine .kind_bind ?_
    split
    · next hclose => exact .pure ⟨[], .noMembers, hclose, .refl decl⟩
    · exact .report_bind
    · refine .bind (member_ensures hexpr hblock decl) fun decl' ys ⟨member, hmember, hadds⟩ => .advance_bind ?_
      refine (ih decl' ys.tail).mono fun decl'' zs ⟨members, hmembers, hclose, hadds'⟩ => ?_
      exact ⟨member :: members, .members hmember hmembers, hclose, hadds.trans hadds'⟩

include hblock in
/-- A class with the members between its braces. -/
theorem classDecl_ensures (h : kindOf xs = .kwClass) : Ensures (classDecl n expr block) xs fun decl ys =>
    Reads .greedy .statement xs (.classDecl decl) ys.tail := by
  refine .bind name_ensures fun x ys hx => .expect_bind fun hopen => .advance_bind ?_
  refine (members_ensures hexpr hblock n _ _).mono fun decl zs ⟨members, hmembers, hclose, hadds⟩ => ?_
  obtain ⟨rfl, hlength⟩ := hadds.eq_ofMembers
  exact .classDecl (tok_of_kindOf h nofun) hx (tok_of_kindOf hopen nofun) hmembers (tok_of_kindOf hclose nofun) hlength

/-- A result, or none where the statement ends at once. -/
theorem returnStatement_ensures (h : kindOf xs = .kwReturn) :
    Ensures (returnStatement expr) xs fun s ys => Reads .greedy .statement xs s ys.tail := by
  have hend {value : Expr} {ys : List Token} (hvalue : Reads .greedy .result xs.tail value ys.tail) : Ensures
      (do
        Step.passSemicolon
        return Stmt.ret value) ys fun s zs => Reads .greedy .statement xs s zs.tail :=
    .bind (passSemicolon_ensures id) fun _ zs hsemicolon => .pure (.ret (tok_of_kindOf h nofun) hvalue hsemicolon)
  refine .peek_bind ?_
  dsimp only
  split
  · next h => exact .pure_bind (hend (.noResult fun _ => .inl h))
  · next h => exact .pure_bind (hend (.noResult fun _ => .inr (.inl h)))
  · next h => exact .pure_bind (hend (.noResult fun _ => .inr (.inr h)))
  · exact .advance_bind (.bind (exprOrNull_ensures hexpr) fun value ys hvalue => hend (.result hvalue))

theorem expressionStatement_ensures :
    Ensures (expressionStatement expr) xs fun s ys => Reads .greedy .statement xs s ys.tail :=
  .bind (exprOrNull_ensures hexpr) fun _ _ he =>
    .bind (passSemicolon_ensures id) fun _ _ hsemicolon => .pure (.expr he hsemicolon)

include hblock in
/-- The forms of statements, told apart by their first token. -/
theorem statement_ensures :
    Ensures (statement n expr block) xs fun s ys => Reads .greedy .statement xs s ys.tail := by
  refine .kind_bind (.peek_bind ?_)
  split
  case h_1 h =>
    refine .bind (binding_ensures hexpr) fun (x, value) ys ⟨zs, us, hx, hvalue, hsemicolon⟩ => .pure ?_
    exact .var (tok_of_kindOf h nofun) hx hvalue hsemicolon
  case h_2 h => exact returnStatement_ensures hexpr h
  case h_3 h _ =>
    refine .bind (functionDecl_ensures hblock) fun decl ys hdecl => .pure ?_
    exact .functionDecl (tok_of_kindOf h nofun) hdecl
  case h_4 h => exact .bind (classDecl_ensures hexpr hblock h) fun _ _ hdecl => .pure hdecl
  case h_5 => exact expressionStatement_ensures hexpr

include hblock in
/-- Statements up to the token that ends them. -/
theorem statements_ensures (ends : TokenKind → Bool) (m : Nat) (xs : List Token) :
    Ensures (statements n expr block ends m) xs fun body ys =>
      Reads .greedy .statements xs body ys ∧ ends (kindOf ys) := by
  induction m generalizing xs with
  | zero => exact .exhausted
  | succ m ih =>
    refine .kind_bind ?_
    split
    · next hends => exact .pure ⟨.noStatements, hends⟩
    · refine .attempt_bind (statement_ensures hexpr hblock) fun s ys hs => .advance_bind ?_
      exact .bind (ih ys.tail) fun rest zs ⟨hrest, hends⟩ => .pure ⟨.statements hs hrest, hends⟩

include hblock in
theorem blockBody_ensures (h : kindOf xs = .lbrace) :
    Ensures (blockBody n expr block) xs fun body ys => Reads .greedy .block xs body ys.tail := by
  refine .advance_bind (.bind (statements_ensures hexpr hblock _ n _) fun body ys ⟨hbody, hends⟩ => .kind_bind ?_)
  split
  · exact .report_bind
  · next heof =>
    have hclose : kindOf ys = .rbrace := by simpa [heof] using hends
    exact .pure (.block (tok_of_kindOf h nofun) hbody (tok_of_kindOf hclose nofun))

end Handlers

/-! ## The whole parser -/

/-- Expressions and blocks of all depths, by induction on the bound on the depth. -/
theorem nested_ensures (n : Nat) :
    (∀ p xs, Ensures (expr n p) xs fun e ys => Reads .greedy (.expression p) xs e ys.tail) ∧
      ∀ xs, kindOf xs = .lbrace → Ensures (block n) xs fun body ys => Reads .greedy .block xs body ys.tail := by
  induction n with
  | zero => exact ⟨fun _ _ => .exhausted, fun _ _ => .exhausted⟩
  | succ n ih =>
    obtain ⟨hexpr, hblock⟩ := ih
    exact ⟨fun p _ => expression_ensures hexpr hblock p, fun _ h => blockBody_ensures hexpr hblock h⟩

/-- Without an error all tokens before the last one are read. -/
theorem program_ensures : Ensures (program n) xs fun program ys =>
    Reads .greedy .statements xs program ys ∧ kindOf ys = .eof := by
  obtain ⟨hexpr, hblock⟩ := nested_ensures n
  exact (statements_ensures hexpr hblock _ n xs).mono fun _ _ ⟨hprogram, hends⟩ => ⟨hprogram, by simpa using hends⟩

end Parse

/-- A program without errors has a derivation, which ends where the source does. -/
theorem parse_reads {tokens : List Token} (h : (parse tokens).errors = []) :
    ∃ rest, Grammar.Reads .greedy .statements tokens (parse tokens).program rest ∧ Step.kindOf rest = .eof := by
  obtain ⟨⟨node, errors, rest⟩, hr, _⟩ := Parse.program_settles (Nat.lt_succ_self tokens.length)
  have herrors : (parse tokens).errors = errors := by
    rw [parse, hr]
    cases node <;> rfl
  obtain ⟨program, hnode, hprogram, hrest⟩ := Parse.program_ensures _ hr (herrors ▸ h)
  obtain rfl : node = some program := hnode
  have hprogram' : (parse tokens).program = program := by
    rw [parse, hr]
  exact ⟨rest, hprogram' ▸ hprogram, hrest⟩

/-- What has been passed before the end of the source are the tokens before the first end. -/
theorem Grammar.Passes.eq_takeWhile {tokens rest : List Token} {us : List Word} (h : Passes tokens us rest)
    (hrest : Step.kindOf rest = .eof) :
    rest = tokens.dropWhile (fun t => t.kind ≠ .eof) ∧ us = words (tokens.takeWhile fun t => t.kind ≠ .eof) := by
  obtain ⟨ts, rfl, hts, rfl⟩ := h
  have hts' : ∀ t ∈ ts, decide (t.kind ≠ .eof) = true := fun t ht => decide_eq_true (hts t ht).1
  have hend : rest.takeWhile (fun t => t.kind ≠ .eof) = [] ∧ rest.dropWhile (fun t => t.kind ≠ .eof) = rest := by
    cases rest with
    | nil => exact ⟨rfl, rfl⟩
    | cons t rest =>
      have ht : ¬decide (t.kind ≠ .eof) = true := fun h => of_decide_eq_true h hrest
      exact ⟨List.takeWhile_cons_of_neg ht, List.dropWhile_cons_of_neg ht⟩
  rw [List.dropWhile_append_of_pos hts', List.takeWhile_append_of_pos hts', hend.1, hend.2, List.append_nil]
  exact ⟨rfl, rfl⟩

/-- Where the parser leaves no error, the tokens before the first end are a sentence of the grammar, and the program is
the tree of a derivation of it, read by the conventions on levels and on the longest phrase. The tree spells the words
of these tokens, each once and in order, and no words spell a missing expression: `Expr.null` is the initial value that
no `=` introduces, or the result of a `return` before `;`, a closing brace or the end. -/
theorem accepted_derivation {tokens : List Token} (h : (parse tokens).errors = []) :
    Grammar.Reads .greedy .statements tokens (parse tokens).program (tokens.dropWhile fun t => t.kind ≠ .eof) ∧
      Spells .stmts (parse tokens).program (words (tokens.takeWhile fun t => t.kind ≠ .eof)) ∧
      ∀ us, ¬Spells .expr .null us := by
  obtain ⟨rest, hprogram, hrest⟩ := parse_reads h
  obtain ⟨us, hus, hspells⟩ := hprogram.passes
  obtain ⟨hrest, rfl⟩ := hus.eq_takeWhile hrest
  exact ⟨hrest ▸ hprogram, hspells, fun _ => not_spells_null⟩

/-- A class with members of all kinds, and a hash with a comma behind its last pair. -/
def classSource : String :=
  "class C \x7b var n; func f(x) \x7b return; \x7d Init(this.n) \x7b \x7d ; \x7d \x7b 1: -a + b, \x7d[1]"

theorem classSource_derivation : (parse (scan classSource)).errors = [] ∧
    Grammar.Reads .greedy .statements (scan classSource) (parse (scan classSource)).program
      ((scan classSource).dropWhile fun t => t.kind ≠ .eof) ∧
    Spells .stmts (parse (scan classSource)).program (words ((scan classSource).takeWhile fun t => t.kind ≠ .eof)) ∧
    ∀ us, ¬Spells .expr .null us := by
  have h : (parse (scan classSource)).errors = [] := by decide +kernel
  exact ⟨h, accepted_derivation h⟩

end Pron
