import Pron.Proofs.Privacy.Mentions
import Pron.Proofs.Syntax.Lexed
import Pron.Proofs.Syntax.Step

/-!
# Where names come from

The parser takes names from identifiers only. So what holds of the literals of all identifiers holds of every name that
a program mentions, however many errors were found in it (`parse_names`). The identifiers of a source are words, and
none of them is a keyword (`parseSource_names`).
-/

namespace Pron

attribute [simp] Expr.mentions Stmt.mentions blockMentions exprMentions branchMentions Branch.mentions otherwiseMentions
  pairMentions KeyValue.mentions FunctionLit.mentions FunctionDecl.mentions methodMentions FieldDecl.mentions
  fieldMentions Constructor.mentions initMentions ClassDecl.mentions

/-- The name that stands in the text. -/
@[simp]
def Mention.spelling : Mention → String
  | name x => x
  | unit className => className

/-- All names that are mentioned have a property. -/
def NamesAre (P : String → Prop) (ms : List Mention) : Prop := ∀ m ∈ ms, P m.spelling

/-- The literals of all identifiers have a property. -/
def IdentsAre (P : String → Prop) (tokens : List Token) : Prop := ∀ t ∈ tokens, t.kind = .ident → P t.literal

namespace NamesAre

variable {P : String → Prop} {m : Mention} {ms ns : List Mention}

@[simp]
theorem nil : NamesAre P [] := nofun

@[simp]
theorem cons : NamesAre P (m :: ms) ↔ P m.spelling ∧ NamesAre P ms := List.forall_mem_cons

@[simp]
theorem append : NamesAre P (ms ++ ns) ↔ NamesAre P ms ∧ NamesAre P ns := List.forall_mem_append

/-- A list mentions what its members mention; likewise for fields and methods. -/
theorem exprs {es : List Expr} : NamesAre P (exprMentions es) ↔ ∀ e ∈ es, NamesAre P e.mentions := by
  induction es with
  | nil => simp
  | cons e es ih => simp [ih]

theorem fields {fs : List FieldDecl} : NamesAre P (fieldMentions fs) ↔ ∀ f ∈ fs, NamesAre P f.mentions := by
  induction fs with
  | nil => simp
  | cons f fs ih => simp [ih]

theorem methods {ms : List FunctionDecl} : NamesAre P (methodMentions ms) ↔ ∀ m ∈ ms, NamesAre P m.mentions := by
  induction ms with
  | nil => simp
  | cons m ms ih => simp [ih]

/-- Fields that are added mention what they mention by themselves. -/
@[simp]
theorem fieldsAppend {fs gs : List FieldDecl} :
    NamesAre P (fieldMentions (fs ++ gs)) ↔ NamesAre P (fieldMentions fs) ∧ NamesAre P (fieldMentions gs) := by
  induction fs with
  | nil => simp
  | cons f fs ih => simp [ih, and_assoc]

/-- Methods that are added mention what they mention by themselves. -/
@[simp]
theorem methodsAppend {ms ns : List FunctionDecl} :
    NamesAre P (methodMentions (ms ++ ns)) ↔ NamesAre P (methodMentions ms) ∧ NamesAre P (methodMentions ns) := by
  induction ms with
  | nil => simp
  | cons m ms ih => simp [ih, and_assoc]

end NamesAre

namespace Step

variable {α β : Type} {P : String → Prop} {N : α → Prop} {N' : β → Prop} {p : Step α} {k : TokenKind} {xs : List Token}

/-! ## Steps that take names from identifiers -/

/-- Where identifiers have a property, the names in the node that a step leaves have it, too. -/
def Names (P : String → Prop) (N : α → Prop) (p : Step α) (xs : List Token) : Prop :=
  IdentsAre P xs → ∀ r, p xs = some r → IdentsAre P r.rest ∧ ∀ a, r.node = some a → N a

namespace Names

/-- A node with such names, made without a look at the tokens. -/
theorem pure {a : α} (h : N a) : Names P N (Pure.pure a) xs := by
  rintro hxs _ ⟨⟩
  exact ⟨hxs, fun _ ha => Option.some.inj ha ▸ h⟩

/-- Names of a first node are known while the second one is made, whatever tokens are left. -/
theorem bind {f : α → Step β} (hp : Names P N p xs) (hf : ∀ a ys, N a → Names P N' (f a) ys) :
    Names P N' (p >>= f) xs := by
  intro hxs r hr
  obtain ⟨errors, ys, hpx, rfl⟩ | ⟨a, errors, ys, r', hpx, hfy, rfl⟩ := bind_cases hr
  · exact ⟨(hp hxs _ hpx).1, nofun⟩
  · obtain ⟨hys, ha⟩ := hp hxs _ hpx
    exact hf a ys (ha a rfl) hys r' hfy

/-- No node is made when the bound is reached. -/
theorem exhausted : Names P N (Step.exhausted : Step α) xs := fun _ _ h => nomatch h

theorem report_bind {e : SyntaxError} {f : Unit → Step β} (hf : Names P N' (f ()) xs) :
    Names P N' (report e >>= f) xs := by
  intro hxs r hr
  obtain ⟨_, _, ⟨⟩, -⟩ | ⟨_, _, _, r', ⟨⟩, hfx, rfl⟩ := bind_cases hr
  exact hf hxs r' hfx

/-- No node is made after an error. -/
theorem report_fail (e : SyntaxError) : Names P N (do report e; fail : Step α) xs := by
  rintro hxs _ ⟨⟩
  exact ⟨hxs, nofun⟩

/-- What follows may know the kind of the token in front. -/
theorem kind_bind {f : TokenKind → Step β} (hf : Names P N' (f (kindOf xs)) xs) : Names P N' (kind >>= f) xs := by
  rwa [Names, kind_bind_eq]

/-- What follows may know the kind of the token behind the one in front. -/
theorem peek_bind {f : TokenKind → Step β} (hf : Names P N' (f (kindOf xs.tail)) xs) : Names P N' (peek >>= f) xs := by
  rwa [Names, peek_bind_eq]

theorem advance : Names P (fun _ => True) advance xs := by
  rintro hxs _ ⟨⟩
  exact ⟨fun t ht => hxs t (List.mem_of_mem_tail ht), fun _ _ => trivial⟩

theorem advance_bind {f : Unit → Step β} (hf : Names P N' (f ()) xs.tail) : Names P N' (Step.advance >>= f) xs := by
  intro hxs r hr
  rw [advance_bind_eq] at hr
  exact hf (fun t ht => hxs t (List.mem_of_mem_tail ht)) r hr

/-- The text of a token is no name as such, since its kind is not known. -/
theorem literal_bind {f : String → Step β} (hf : ∀ x, Names P N' (f x) xs) : Names P N' (literal >>= f) xs := by
  intro hxs r hr
  rw [literal_bind_eq] at hr
  exact hf _ hxs r hr

/-- The literal of an identifier. -/
theorem ident_bind {f : String → Step β} (hk : kindOf xs = .ident) (hf : ∀ x, P x → Names P N' (f x) xs) :
    Names P N' (literal >>= f) xs := by
  intro hxs r hr
  rw [literal_bind_eq] at hr
  cases xs with
  | nil => cases hk
  | cons t ts => exact hf _ (hxs t List.mem_cons_self hk) hxs r hr

/-- What follows `expect` may know that the token in front has the kind that was asked for. -/
theorem expect_bind {f : Unit → Step β} (hf : kindOf xs.tail = k → Names P N' (f ()) xs.tail) :
    Names P N' (expect k >>= f) xs := by
  by_cases hk : kindOf xs.tail = k
  · intro hxs r hr
    rw [bind_of_done (expect_of_eq hk)] at hr
    exact hf hk (fun t ht => hxs t (List.mem_of_mem_tail ht)) r hr
  · intro hxs r hr
    obtain ⟨_, _, hp, rfl⟩ | ⟨_, _, _, _, hp, -⟩ := bind_cases hr
    · rw [expect_of_ne hk] at hp
      cases hp
      exact ⟨hxs, nofun⟩
    · rw [expect_of_ne hk] at hp
      cases hp

/-- The name that is taken is the text of an identifier. -/
theorem name : Names P P name xs := expect_bind fun hk => ident_bind hk fun _ hx => pure hx

theorem passSemicolon_bind {f : Unit → Step β} (hf : ∀ ys, Names P N' (f ()) ys) :
    Names P N' (passSemicolon >>= f) xs := by
  refine bind (N := fun _ => True) (peek_bind ?_) fun _ ys _ => hf ys
  split
  · exact advance
  · exact pure trivial

/-- Where there is no node, there is nothing to name. -/
theorem attempt (hp : Names P N p xs) : Names P (fun node => ∀ a, node = some a → N a) (attempt p) xs := by
  intro hxs r hr
  obtain ⟨first, hfirst, rfl⟩ := Option.map_eq_some_iff.1 hr
  obtain ⟨hrest, hnode⟩ := hp hxs first hfirst
  exact ⟨hrest, fun node hnode' a ha => hnode a (Option.some.inj hnode' ▸ ha)⟩

end Names

end Step

namespace Parse

open Step

variable {α : Type} {P : String → Prop} {n m : Nat} {xs : List Token}

/-! ## Lists -/

section Lists

variable {item : Step α} {N : α → Prop} {close : TokenKind} (hitem : ∀ xs, Step.Names P N item xs)

include hitem

/-- Items with such names, one after the other. -/
theorem moreItems_names : Step.Names P (fun as => ∀ a ∈ as, N a) (moreItems item m) xs := by
  induction m generalizing xs with
  | zero => exact .exhausted
  | succ m ih =>
    refine .peek_bind ?_
    split
    · exact .advance_bind (.bind (hitem _) fun first _ hfirst => .bind ih fun rest _ hrest =>
        .pure (List.forall_mem_cons.2 ⟨hfirst, hrest⟩))
    · exact .pure nofun

/-- A list has the names of its items. -/
theorem items_names : Step.Names P (fun as => ∀ a ∈ as, N a) (items n close item) xs := by
  refine .peek_bind ?_
  split
  · exact .advance_bind (.pure nofun)
  · exact .bind (hitem _) fun first _ hfirst => .bind (moreItems_names hitem) fun rest _ hrest =>
      .expect_bind fun _ => .pure (List.forall_mem_cons.2 ⟨hfirst, hrest⟩)

end Lists

/-! ## Expressions -/

section Handlers

variable {expr : Precedence → Step Expr} {block : Step (List Stmt)}
  (hexpr : ∀ p xs, Step.Names P (fun e => NamesAre P e.mentions) (expr p) xs)
  (hblock : ∀ xs, Step.Names P (fun body => NamesAre P (blockMentions body)) block xs)

include hexpr in
/-- Arguments mention what the expressions between the commas mention. -/
theorem arguments_names {close : TokenKind} :
    Step.Names P (fun es => NamesAre P (exprMentions es)) (arguments n expr close) xs := by
  simp only [NamesAre.exprs]
  exact items_names fun _ => .advance_bind (hexpr _ _)

theorem parameters_names : Step.Names P (fun xs => ∀ x ∈ xs, P x) (parameters n) xs :=
  .expect_bind fun _ => items_names fun _ => .name

include hblock in
theorem bracedBlock_names : Step.Names P (fun body => NamesAre P (blockMentions body)) (bracedBlock block) xs :=
  .expect_bind fun _ => hblock _

include hblock in
theorem functionLit_names : Step.Names P (fun literal => NamesAre P literal.mentions) (functionLit n block) xs := by
  refine .bind parameters_names fun ps _ hps => .bind (bracedBlock_names hblock) fun body _ hbody => .pure ?_
  rw [FunctionLit.mentions, NamesAre.append]
  exact ⟨List.forall_mem_map.2 hps, hbody⟩

include hexpr in
/-- What begins with a name mentions it, and further names only from identifiers and arguments. -/
theorem nameForm_names (hk : kindOf xs = .ident) :
    Step.Names P (fun e => NamesAre P e.mentions) (nameForm n expr) xs := by
  refine .ident_bind hk fun x hx => .peek_bind ?_
  split
  · refine .advance_bind (.bind .name fun method _ hmethod => .expect_bind fun _ => ?_)
    refine .bind (arguments_names hexpr) fun args _ hargs => .pure ?_
    simp [hx, hmethod, hargs]
  · exact .advance_bind (.pure (by simp [hx]))
  · exact .advance_bind (.pure (by simp [hx]))
  · exact .pure (by simp [hx])

/-- A name of the receiver comes from an identifier. -/
theorem thisForm_names : Step.Names P (fun e => NamesAre P e.mentions) thisForm xs :=
  .expect_bind fun _ => .bind .name fun x _ hx => .pure (by simp [hx])

/-- Numbers mention nothing. -/
theorem integerForm_names : Step.Names P (fun e => NamesAre P e.mentions) integerForm xs := by
  refine .literal_bind fun x => ?_
  split
  · exact .pure (by simp)
  · exact .report_fail _

theorem realForm_names : Step.Names P (fun e => NamesAre P e.mentions) realForm xs := by
  refine .literal_bind fun x => ?_
  split
  · exact .pure (by simp)
  · exact .report_fail _

include hexpr in
theorem unaryForm_names (op : UnaryOp) : Step.Names P (fun e => NamesAre P e.mentions) (unaryForm expr op) xs :=
  .advance_bind (.bind (hexpr _ _) fun e _ he => .pure (by simpa using he))

include hexpr in
theorem groupForm_names : Step.Names P (fun e => NamesAre P e.mentions) (groupForm expr) xs :=
  .advance_bind (.bind (hexpr _ _) fun _ _ he => .expect_bind fun _ => .pure he)

include hexpr hblock in
theorem branch_names : Step.Names P (fun b => NamesAre P b.mentions) (branch expr block) xs := by
  refine .expect_bind fun _ => .advance_bind (.bind (hexpr _ _) fun condition _ hcondition => .expect_bind fun _ => ?_)
  exact .bind (bracedBlock_names hblock) fun body _ hbody => .pure (by simp [hcondition, hbody])

include hexpr hblock in
/-- Each branch mentions such names, in its condition and in its block. -/
theorem moreBranches_names :
    Step.Names P (fun bs => NamesAre P (branchMentions bs)) (moreBranches expr block m) xs := by
  induction m generalizing xs with
  | zero => exact .exhausted
  | succ m ih =>
    refine .peek_bind ?_
    split
    · exact .advance_bind (.bind (branch_names hexpr hblock) fun first _ hfirst => .bind ih fun rest _ hrest =>
        .pure (by simp [hfirst, hrest]))
    · exact .pure (by simp)

include hexpr hblock in
theorem conditionalForm_names : Step.Names P (fun e => NamesAre P e.mentions) (conditionalForm n expr block) xs := by
  refine .bind (branch_names hexpr hblock) fun first _ hfirst => ?_
  refine .bind (moreBranches_names hexpr hblock) fun more _ hmore => .peek_bind ?_
  split
  · exact .advance_bind (.bind (bracedBlock_names hblock) fun body _ hbody => .pure (by simp [hfirst, hmore, hbody]))
  · exact .pure (by simp [hfirst, hmore])

include hexpr in
/-- Keys and values mention such names. -/
theorem hashPairs_names : Step.Names P (fun pairs => NamesAre P (pairMentions pairs)) (hashPairs expr m) xs := by
  induction m generalizing xs with
  | zero => exact .exhausted
  | succ m ih =>
    refine .peek_bind ?_
    split
    · exact .pure (by simp)
    refine .advance_bind (.bind (hexpr _ _) fun key _ hkey => .expect_bind fun _ => .advance_bind ?_)
    refine .bind (hexpr _ _) fun value _ hvalue => .peek_bind ?_
    have hrest (us : List Token) : Step.Names P (fun pairs => NamesAre P (pairMentions pairs))
        (do
          let rest ← hashPairs expr m
          return { key, value } :: rest) us :=
      .bind ih fun rest _ hrest => .pure (by simp [hkey, hvalue, hrest])
    split
    · exact .expect_bind fun _ => hrest _
    · exact hrest _

include hexpr in
theorem hashForm_names : Step.Names P (fun e => NamesAre P e.mentions) (hashForm n expr) xs :=
  .bind (hashPairs_names hexpr) fun _ _ hpairs => .expect_bind fun _ => .pure (by simpa using hpairs)

include hexpr hblock in
/-- The name that a loop binds comes from an identifier, and so does that of a collection. -/
theorem loopForm_names : Step.Names P (fun e => NamesAre P e.mentions) (loopForm expr block) xs := by
  refine .expect_bind fun _ => .bind .name fun x _ hx => .peek_bind ?_
  split
  · refine .advance_bind (.advance_bind (.bind (hexpr _ _) fun start _ hstart => ?_))
    refine .expect_bind fun _ => .advance_bind ?_
    refine .bind (hexpr _ _) fun stop _ hstop => .expect_bind fun _ => ?_
    exact .bind (bracedBlock_names hblock) fun body _ hbody => .pure (by simp [hx, hstart, hstop, hbody])
  · refine .advance_bind (.bind .name fun collection _ hcollection => .expect_bind fun _ => ?_)
    exact .bind (bracedBlock_names hblock) fun body _ hbody => .pure (by simp [hx, hcollection, hbody])
  · exact .report_fail _

include hexpr in
/-- The name of a class comes from an identifier. -/
theorem newForm_names : Step.Names P (fun e => NamesAre P e.mentions) (newForm n expr) xs :=
  .bind .name fun className _ hname => .expect_bind fun _ => .bind (arguments_names hexpr) fun args _ hargs =>
    .pure (by simp [hname, hargs])

include hexpr hblock in
/-- The forms of operands, told apart by their first token. -/
theorem operand_names : Step.Names P (fun e => NamesAre P e.mentions) (operand n expr block) xs := by
  refine .kind_bind ?_
  split
  · next hk => exact nameForm_names hexpr hk
  · exact thisForm_names
  · exact integerForm_names
  · exact realForm_names
  · exact .literal_bind fun _ => .pure (by simp)
  · exact .pure (by simp)
  · exact .pure (by simp)
  · exact unaryForm_names hexpr _
  · exact unaryForm_names hexpr _
  · exact groupForm_names hexpr
  · exact conditionalForm_names hexpr hblock
  · exact .bind (functionLit_names hblock) fun _ _ hliteral => .pure (by simpa using hliteral)
  · exact .bind (arguments_names hexpr) fun _ _ helements => .pure (by simpa using helements)
  · exact hashForm_names hexpr
  · exact loopForm_names hexpr hblock
  · exact newForm_names hexpr
  · exact .report_fail _

include hexpr in
/-- An expression that is made longer mentions what it did and what is added. -/
theorem continueWith_names {left : Expr} (hleft : NamesAre P left.mentions) (c : Continuation) :
    Step.Names P (fun e => NamesAre P e.mentions) (continueWith n expr left c) xs := by
  cases c with
  | operator op => exact .advance_bind (.bind (hexpr _ _) fun _ _ hright => .pure (by simp [hleft, hright]))
  | call => exact .bind (arguments_names hexpr) fun _ _ hargs => .pure (by simp [hleft, hargs])
  | index =>
    exact .advance_bind (.bind (hexpr _ _) fun _ _ hindex => .expect_bind fun _ => .pure (by simp [hleft, hindex]))

include hexpr in
/-- Names stay such however often an expression is made longer. -/
theorem continuations_names (p : Precedence) {left : Expr} (hleft : NamesAre P left.mentions) :
    Step.Names P (fun e => NamesAre P e.mentions) (continuations n expr p m left) xs := by
  induction m generalizing xs left with
  | zero => exact .exhausted
  | succ m ih =>
    refine .peek_bind ?_
    split
    · exact .pure hleft
    · split
      · exact .advance_bind (.bind (continueWith_names hexpr hleft _) fun _ _ hlonger => ih hlonger)
      · exact .pure hleft

include hexpr hblock in
theorem expression_names (p : Precedence) :
    Step.Names P (fun e => NamesAre P e.mentions) (expression n expr block p) xs :=
  .bind (operand_names hexpr hblock) fun _ _ hleft => continuations_names hexpr p hleft

/-! ## Statements -/

include hexpr in
theorem exprOrNull_names : Step.Names P (fun e => NamesAre P e.mentions) (exprOrNull expr) xs := by
  refine .bind (hexpr _ _).attempt fun node _ hnode => .pure ?_
  cases node with
  | none => simp
  | some e => exact hnode e rfl

include hexpr in
/-- A bound name comes from an identifier, the names of its value from an expression. -/
theorem binding_names :
    Step.Names P (fun field => P field.1 ∧ NamesAre P field.2.mentions) (binding expr) xs := by
  refine .bind .name fun x _ hx => .peek_bind ?_
  dsimp only
  split
  · exact .advance_bind (.advance_bind (.bind (exprOrNull_names hexpr) fun _ _ hvalue =>
      .passSemicolon_bind fun _ => .pure ⟨hx, hvalue⟩))
  · exact .bind (.pure (N := fun e => e = .null) rfl) fun _ _ hvalue =>
      .passSemicolon_bind fun _ => .pure ⟨hx, by simp [hvalue]⟩

include hblock in
/-- The name of a function comes from an identifier. -/
theorem functionDecl_names : Step.Names P (fun decl => NamesAre P decl.mentions) (functionDecl n block) xs :=
  .bind .name fun _ _ hname => .bind (functionLit_names hblock) fun literal _ hliteral =>
    .passSemicolon_bind fun _ => .pure (by simpa [hname] using hliteral)

include hexpr in
theorem returnStatement_names : Step.Names P (fun st => NamesAre P st.mentions) (returnStatement expr) xs := by
  refine .peek_bind ?_
  dsimp only
  split
  case h_4 =>
    exact .advance_bind (.bind (exprOrNull_names hexpr) fun _ _ hvalue =>
      .passSemicolon_bind fun _ => .pure (by simpa using hvalue))
  all_goals
    exact .bind (.pure (N := fun e => e = .null) rfl) fun _ _ hvalue =>
      .passSemicolon_bind fun _ => .pure (by simp [hvalue])

include hexpr in
theorem expressionStatement_names : Step.Names P (fun st => NamesAre P st.mentions) (expressionStatement expr) xs :=
  .bind (exprOrNull_names hexpr) fun _ _ he => .passSemicolon_bind fun _ => .pure (by simpa using he)

/-! ## Classes -/

/-- The name of a parameter comes from an identifier, also behind `this`. -/
theorem constructorParam_names : Step.Names P (fun p => P p.name) constructorParam xs := by
  refine .kind_bind ?_
  split
  · exact .expect_bind fun _ => .bind .name fun _ _ hx => .pure hx
  · next hk => exact .ident_bind hk fun _ hx => .pure hx
  · exact .report_fail _

include hblock in
theorem constructor_names : Step.Names P (fun init => NamesAre P init.mentions) (constructor n block) xs := by
  refine .expect_bind fun _ => .bind (items_names fun _ => .advance_bind constructorParam_names) fun ps _ hps => ?_
  refine .bind (bracedBlock_names hblock) fun body _ hbody => .pure ?_
  rw [Constructor.mentions, NamesAre.append]
  exact ⟨List.forall_mem_map.2 hps, hbody⟩

include hexpr hblock in
/-- A class mentions what it did and what its new member mentions. -/
theorem member_names {decl : ClassDecl} (hdecl : NamesAre P decl.mentions) :
    Step.Names P (fun decl => NamesAre P decl.mentions) (member n expr block decl) xs := by
  obtain ⟨name, fields, methods, init⟩ := decl
  simp only [ClassDecl.mentions, NamesAre.cons, NamesAre.append, Mention.spelling] at hdecl
  obtain ⟨hname, hfields, hmethods, hold⟩ := hdecl
  have hsame : NamesAre P (ClassDecl.mk name fields methods init).mentions := by simp_all
  refine .kind_bind ?_
  split
  · refine .bind (binding_names hexpr).attempt fun node _ hnode => ?_
    cases node with
    | none => exact .pure hsame
    | some field =>
      obtain ⟨hx, hvalue⟩ := hnode field rfl
      exact .pure (by simp_all)
  · refine .bind (functionDecl_names hblock).attempt fun node _ hnode => ?_
    cases node with
    | none => exact .pure hsame
    | some method =>
      have hmethod := hnode method rfl
      exact .pure (by simp_all)
  · dsimp only
    split
    case' isTrue => refine .report_bind ?_
    all_goals
      refine .bind (constructor_names hblock).attempt fun node _ hnode => ?_
      cases node with
      | none => exact .pure hsame
      | some init =>
        have hnew := hnode init rfl
        refine .pure ?_
        rw [ClassDecl.mentions, initMentions]
        simp only [NamesAre.cons, NamesAre.append, Mention.spelling]
        exact ⟨hname, hfields, hmethods, hnew⟩
  · exact .pure hsame
  · exact .report_bind (.pure hsame)

include hexpr hblock in
/-- Names stay such however many members are added. -/
theorem members_names {decl : ClassDecl} (hdecl : NamesAre P decl.mentions) :
    Step.Names P (fun decl => NamesAre P decl.mentions) (members n expr block m decl) xs := by
  induction m generalizing xs decl with
  | zero => exact .exhausted
  | succ m ih =>
    refine .kind_bind ?_
    split
    · exact .pure hdecl
    · exact .report_fail _
    · exact .bind (member_names hexpr hblock hdecl) fun _ _ hdecl => .advance_bind (ih hdecl)

include hexpr hblock in
theorem classDecl_names : Step.Names P (fun decl => NamesAre P decl.mentions) (classDecl n expr block) xs :=
  .bind .name fun _ _ hname => .expect_bind fun _ => .advance_bind (members_names hexpr hblock (by simpa using hname))

/-! ## Blocks and programs -/

include hexpr hblock in
/-- The forms of statements, told apart by their first token. -/
theorem statement_names : Step.Names P (fun st => NamesAre P st.mentions) (statement n expr block) xs := by
  refine .kind_bind (.peek_bind ?_)
  split
  · exact .bind (binding_names hexpr) fun field _ hfield => .pure (by simpa using hfield)
  · exact returnStatement_names hexpr
  · exact .bind (functionDecl_names hblock) fun _ _ hdecl => .pure (by simpa using hdecl)
  · exact .bind (classDecl_names hexpr hblock) fun _ _ hdecl => .pure (by simpa using hdecl)
  · exact expressionStatement_names hexpr

include hexpr hblock in
/-- A block mentions what its statements mention. -/
theorem statements_names {ends : TokenKind → Bool} :
    Step.Names P (fun body => NamesAre P (blockMentions body)) (statements n expr block ends m) xs := by
  induction m generalizing xs with
  | zero => exact .exhausted
  | succ m ih =>
    refine .kind_bind ?_
    split
    · exact .pure (by simp)
    · refine .bind (statement_names hexpr hblock).attempt fun first _ hfirst => .advance_bind ?_
      refine .bind ih fun rest _ hrest => .pure ?_
      cases first with
      | none => simpa using hrest
      | some st => simpa using ⟨hfirst st rfl, hrest⟩

include hexpr hblock in
theorem blockBody_names : Step.Names P (fun body => NamesAre P (blockMentions body)) (blockBody n expr block) xs := by
  refine .advance_bind (.bind (statements_names hexpr hblock) fun body _ hbody => .kind_bind ?_)
  dsimp only
  split
  · exact .report_bind (.pure hbody)
  · exact .pure hbody

end Handlers

/-- Expressions and blocks of all depths, by induction on the bound on the depth. -/
theorem nested_names (P : String → Prop) (n : Nat) :
    (∀ p xs, Step.Names P (fun e => NamesAre P e.mentions) (expr n p) xs) ∧
      ∀ xs, Step.Names P (fun body => NamesAre P (blockMentions body)) (block n) xs := by
  induction n with
  | zero => exact ⟨fun _ _ => .exhausted, fun _ => .exhausted⟩
  | succ n ih => exact ⟨fun p _ => expression_names ih.1 ih.2 p, fun _ => blockBody_names ih.1 ih.2⟩

end Parse

/-- Every name in a program is an identifier of its tokens. -/
theorem parse_names {P : String → Prop} {tokens : List Token} (h : IdentsAre P tokens) :
    NamesAre P (blockMentions (parse tokens).program) := by
  obtain ⟨hexpr, hblock⟩ := Parse.nested_names P (tokens.length + 1)
  have hprogram :
      Step.Names P (fun body => NamesAre P (blockMentions body)) (Parse.program (tokens.length + 1)) tokens :=
    Parse.statements_names hexpr hblock
  unfold parse
  split
  · next hr => exact (hprogram h _ hr).2 _ rfl
  · simp
  · simp

/-- Every name in the program of a source is a word that is no keyword, also where errors were found. -/
theorem parseSource_names (source : String) : NamesAre IsName (blockMentions (parseSource source).program) := by
  refine parse_names fun t ht hk => ?_
  have hword : t.word? = some (.name t.literal) := by rw [Token.word?, hk]
  exact scan_lexed source _ (List.mem_filterMap.2 ⟨t, ht, hword⟩)

end Pron
