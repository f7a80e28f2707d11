import Pron.Proofs.Syntax.Step

/-!
# Reading comes to an end

Every handler of the parser settles (`Step.SettlesAt`) on lists of tokens that are not longer than the number of rounds
it is given, when the handlers of the parts settle on shorter ones. Each level of nesting starts behind a token that it
has used up, and each round of a loop uses up a token, so the bound of `parse` is never reached
(`Parse.program_settles`).
-/

namespace Pron

namespace Parse

open Step (kindOf SettlesAt length_pos_of_kindOf)

variable {α : Type} {n m : Nat} {xs : List Token}

/-! ## Lists -/

section Lists

variable {item : Step α} {close : TokenKind}

/-- Each further item stands behind a comma, which uses up a token, so the bound is not met. -/
theorem moreItems_settles (hitem : ∀ ys, ys.length ≤ n → SettlesAt item ys) (hm : xs.length ≤ m) (hn : xs.length ≤ n)
    (hpos : 0 < m) : SettlesAt (Step.moreItems item m) xs := by
  induction m generalizing xs with
  | zero => omega
  | succ m ih =>
    refine .peek_bind ?_
    split
    · have hlength : 0 < xs.tail.length := length_pos_of_kindOf (by simp [*])
      rw [List.length_tail] at hlength
      refine .advance_bind (.bind (hitem _ (by simp; omega)) fun a ys hys => ?_)
      rw [List.length_tail] at hys
      exact .bind (ih (by omega) (by omega) (by omega)) fun _ zs _ => .pure _ zs
    · exact .pure _ xs

/-- A list settles when its items do. -/
theorem items_settles (hitem : ∀ ys, ys.length ≤ n → SettlesAt item ys) (hn : xs.length ≤ n) (hpos : 0 < n) :
    SettlesAt (Step.items n close item) xs := by
  refine .peek_bind ?_
  split
  · exact .advance_bind (.pure _ _)
  · refine .bind (hitem xs hn) fun a ys hys => ?_
    refine .bind (moreItems_settles hitem (by omega) (by omega) hpos) fun as zs _ => ?_
    exact .expect_bind fun _ => .pure _ _

end Lists

/-! ## Handlers -/

section Handlers

variable {expr : Precedence → Step Expr} {block : Step (List Stmt)}
  (hexpr : ∀ p ys, ys.length < n → SettlesAt (expr p) ys)
  (hblock : ∀ ys, 0 < ys.length → ys.length < n → SettlesAt block ys)

include hexpr

/-- A missing expression is reported, and reading goes on. -/
theorem exprOrNull_settles (hx : xs.length < n) : SettlesAt (exprOrNull expr) xs :=
  .attempt_bind (hexpr _ _ hx) fun _ ys _ => .pure _ ys

/-- Arguments, from a token before them. -/
theorem arguments_settles {close : TokenKind} (hx : xs.length ≤ n) (hpos : 0 < n) :
    SettlesAt (arguments n expr close) xs :=
  items_settles (fun ys hys => .advance_bind (hexpr _ _ (by rw [List.length_tail]; omega))) hx hpos

omit hexpr in
/-- Parameters are names, which settle everywhere. -/
theorem parameters_settles (hx : xs.length ≤ n) (hpos : 0 < n) : SettlesAt (parameters n) xs :=
  .expect_bind fun _ => items_settles (fun ys _ => .name ys) (by rw [List.length_tail]; omega) hpos

omit hexpr in
include hblock in
/-- A block is read only behind its brace, which has used up a token. -/
theorem bracedBlock_settles (hx : xs.length ≤ n) (hpos : 0 < n) : SettlesAt (bracedBlock block) xs :=
  .expect_bind fun h => hblock _ (length_pos_of_kindOf (by simp [h])) (by rw [List.length_tail]; omega)

omit hexpr in
include hblock in
theorem functionLit_settles (hx : xs.length ≤ n) (hpos : 0 < n) : SettlesAt (functionLit n block) xs := by
  refine .bind (parameters_settles hx hpos) fun names ys hys => ?_
  exact .bind (bracedBlock_settles hblock (by omega) hpos) fun _ zs _ => .pure _ zs

/-! ## Expressions -/

/-- Arguments are read behind a name, a dot, a name and a parenthesis. -/
theorem nameForm_settles (hx : xs.length ≤ n) (hpos : 0 < n) : SettlesAt (nameForm n expr) xs := by
  refine .literal_bind fun x => .peek_bind ?_
  split
  · refine .advance_bind (.bind (.name _) fun method ys hys => .expect_bind fun _ => ?_)
    simp only [List.length_tail] at hys
    refine .bind (arguments_settles hexpr ?_ hpos) fun _ zs _ => .pure _ zs
    rw [List.length_tail]
    omega
  · exact .advance_bind (.pure _ _)
  · exact .advance_bind (.pure _ _)
  · exact .pure _ _

omit hexpr in
theorem thisForm_settles : SettlesAt thisForm xs :=
  .expect_bind fun _ => .bind (.name _) fun _ ys _ => .pure _ ys

omit hexpr in
/-- Digits out of range are reported. -/
theorem integerForm_settles : SettlesAt integerForm xs := by
  refine .literal_bind fun x => ?_
  split
  · exact .pure _ _
  · exact .report_fail _ _

omit hexpr in
theorem realForm_settles : SettlesAt realForm xs := by
  refine .literal_bind fun x => ?_
  split
  · exact .pure _ _
  · exact .report_fail _ _

theorem unaryForm_settles (op : UnaryOp) (hx : xs.tail.length < n) : SettlesAt (unaryForm expr op) xs :=
  .advance_bind (.bind (hexpr _ _ hx) fun _ ys _ => .pure _ ys)

theorem groupForm_settles (hx : xs.tail.length < n) : SettlesAt (groupForm expr) xs :=
  .advance_bind (.bind (hexpr _ _ hx) fun _ _ _ => .expect_bind fun _ => .pure _ _)

include hblock in
theorem branch_settles (hx : xs.length ≤ n) (hpos : 0 < n) : SettlesAt (branch expr block) xs := by
  refine .expect_bind fun _ => .advance_bind ?_
  refine .bind (hexpr _ _ (by simp only [List.length_tail]; omega)) fun condition ys hys => .expect_bind fun _ => ?_
  simp only [List.length_tail] at hys
  refine .bind (bracedBlock_settles hblock ?_ hpos) fun _ zs _ => .pure _ zs
  rw [List.length_tail]
  omega

include hblock in
/-- Each further branch stands behind `elif`, so the bound is not met. -/
theorem moreBranches_settles (hm : xs.length ≤ m) (hx : xs.length ≤ n) (hpos : 0 < n) (hm' : 0 < m) :
    SettlesAt (moreBranches expr block m) xs := by
  induction m generalizing xs with
  | zero => omega
  | succ m ih =>
    refine .peek_bind ?_
    split
    · have hlength : 0 < xs.tail.length := length_pos_of_kindOf (by simp [*])
      rw [List.length_tail] at hlength
      refine .advance_bind (.bind (branch_settles hexpr hblock ?_ hpos) fun first ys hys => ?_)
      · rw [List.length_tail]; omega
      · rw [List.length_tail] at hys
        exact .bind (ih (by omega) (by omega) (by omega)) fun _ zs _ => .pure _ zs
    · exact .pure _ xs

include hblock in
/-- The first branch, the further ones and the last block settle one after the other. -/
theorem conditionalForm_settles (hx : xs.length ≤ n) (hpos : 0 < n) :
    SettlesAt (conditionalForm n expr block) xs := by
  refine .bind (branch_settles hexpr hblock hx hpos) fun first ys hys => ?_
  refine .bind (moreBranches_settles hexpr hblock (by omega) (by omega) hpos hpos) fun more zs hzs => .peek_bind ?_
  split
  · refine .advance_bind (.bind (bracedBlock_settles hblock ?_ hpos) fun _ us _ => .pure _ us)
    rw [List.length_tail]
    omega
  · exact .pure _ _

/-- Each pair uses up its colon at least, so the bound is not met. -/
theorem hashPairs_settles (hm : xs.length ≤ m) (hx : xs.length ≤ n) (hpos : 0 < n) (hm' : 0 < m) :
    SettlesAt (hashPairs expr m) xs := by
  induction m generalizing xs with
  | zero => omega
  | succ m ih =>
    refine .peek_bind ?_
    split
    · exact .pure _ xs
    refine .advance_bind (.bind (hexpr _ _ (by rw [List.length_tail]; omega)) fun key ys hys => ?_)
    rw [List.length_tail] at hys
    refine .expect_bind fun hcolon => .advance_bind ?_
    have hlength : 0 < ys.tail.length := length_pos_of_kindOf (by simp [hcolon])
    simp only [List.length_tail] at hlength
    refine .bind (hexpr _ _ (by simp only [List.length_tail]; omega)) fun value zs hzs => .peek_bind ?_
    simp only [List.length_tail] at hzs
    have hrest (us : List Token) (hus : us.length ≤ zs.length) : SettlesAt
        (do
          let rest ← hashPairs expr m
          return { key, value } :: rest) us :=
      .bind (ih (by omega) (by omega) (by omega)) fun _ vs _ => .pure _ vs
    split
    · exact .expect_bind fun _ => hrest _ (by simp)
    · exact hrest _ (by simp)

theorem hashForm_settles (hx : xs.length ≤ n) (hpos : 0 < n) : SettlesAt (hashForm n expr) xs :=
  .bind (hashPairs_settles hexpr hx hx hpos hpos) fun _ _ _ => .expect_bind fun _ => .pure _ _

include hblock in
/-- The two kinds of loops, told apart by the token behind the name. -/
theorem loopForm_settles (hx : xs.length ≤ n) (hpos : 0 < n) : SettlesAt (loopForm expr block) xs := by
  refine .expect_bind fun _ => .bind (.name _) fun x ys hys => .peek_bind ?_
  rw [List.length_tail] at hys
  split
  · refine .advance_bind (.advance_bind (.bind (hexpr _ _ ?_) fun start zs hzs => ?_))
    · simp only [List.length_tail]; omega
    simp only [List.length_tail] at hzs
    refine .expect_bind fun _ => .advance_bind (.bind (hexpr _ _ ?_) fun stop us hus => .expect_bind fun _ => ?_)
    · simp only [List.length_tail]; omega
    simp only [List.length_tail] at hus
    refine .bind (bracedBlock_settles hblock ?_ hpos) fun _ vs _ => .pure _ vs
    rw [List.length_tail]
    omega
  · refine .advance_bind (.bind (.name _) fun collection zs hzs => .expect_bind fun _ => ?_)
    rw [List.length_tail] at hzs
    refine .bind (bracedBlock_settles hblock ?_ hpos) fun _ us _ => .pure _ us
    rw [List.length_tail]
    omega
  · exact .report_fail _ _

theorem newForm_settles (hx : xs.length ≤ n) (hpos : 0 < n) : SettlesAt (newForm n expr) xs := by
  refine .bind (.name _) fun className ys hys => .expect_bind fun _ => ?_
  refine .bind (arguments_settles hexpr ?_ hpos) fun _ zs _ => .pure _ zs
  rw [List.length_tail]
  omega

include hblock in
/-- The forms of operands, told apart by their first token. -/
theorem operand_settles (hx : xs.length ≤ n) (hpos : 0 < n) : SettlesAt (operand n expr block) xs := by
  refine .kind_bind ?_
  have htail (h : kindOf xs ≠ .eof) : xs.tail.length < n := by
    have := length_pos_of_kindOf h
    rw [List.length_tail]
    omega
  split
  · exact nameForm_settles hexpr hx hpos
  · exact thisForm_settles
  · exact integerForm_settles
  · exact realForm_settles
  · exact .literal_bind fun x => .pure _ _
  · exact .pure _ _
  · exact .pure _ _
  · exact unaryForm_settles hexpr _ (htail (by simp [*]))
  · exact unaryForm_settles hexpr _ (htail (by simp [*]))
  · exact groupForm_settles hexpr (htail (by simp [*]))
  · exact conditionalForm_settles hexpr hblock hx hpos
  · exact .bind (functionLit_settles hblock hx hpos) fun _ ys _ => .pure _ ys
  · exact .bind (arguments_settles hexpr hx hpos) fun _ ys _ => .pure _ ys
  · exact hashForm_settles hexpr hx hpos
  · exact loopForm_settles hexpr hblock hx hpos
  · exact newForm_settles hexpr hx hpos
  · exact .report_fail _ _

/-- The token that continues an expression is used up before the next operand is read. -/
theorem continueWith_settles (left : Expr) (c : Continuation) (hx : xs.length ≤ n) (hpos : 0 < xs.length) :
    SettlesAt (continueWith n expr left c) xs := by
  have htail : xs.tail.length < n := by
    rw [List.length_tail]
    omega
  cases c with
  | operator op => exact .advance_bind (.bind (hexpr _ _ htail) fun _ ys _ => .pure _ ys)
  | call => exact .bind (arguments_settles hexpr hx (by omega)) fun _ ys _ => .pure _ ys
  | index => exact .advance_bind (.bind (hexpr _ _ htail) fun _ _ _ => .expect_bind fun _ => .pure _ _)

omit hexpr in
/-- A token that continues an expression is not the end. -/
theorem kindOf_ne_eof_of_continuation {c : Continuation} (h : Continuation.ofKind? (kindOf xs) = some c) :
    kindOf xs ≠ .eof := by
  intro heof
  rw [heof] at h
  cases h

/-- Each continuation uses up its first token, so the bound is not met. -/
theorem continuations_settles (p : Precedence) (left : Expr) (hm : xs.length ≤ m) (hx : xs.length ≤ n)
    (hpos : 0 < m) : SettlesAt (continuations n expr p m left) xs := by
  induction m generalizing xs left with
  | zero => omega
  | succ m ih =>
    refine .peek_bind ?_
    split
    · exact .pure _ _
    · next c hc =>
      have hlength := length_pos_of_kindOf (kindOf_ne_eof_of_continuation hc)
      have htail := xs.length_tail
      split
      · refine .advance_bind (.bind (continueWith_settles hexpr left c (by omega) hlength) fun longer ys hys => ?_)
        exact ih longer (by omega) (by omega) (by omega)
      · exact .pure _ _

include hblock in
theorem expression_settles (p : Precedence) (hx : xs.length ≤ n) (hpos : 0 < n) :
    SettlesAt (expression n expr block p) xs :=
  .bind (operand_settles hexpr hblock hx hpos) fun left _ _ =>
    continuations_settles hexpr p left (by omega) (by omega) hpos

/-! ## Statements -/

/-- Without an equals sign no expression is read. -/
theorem binding_settles (hx : xs.length ≤ n) (hpos : 0 < n) : SettlesAt (binding expr) xs := by
  have hend (x : String) (value : Expr) (zs : List Token) : SettlesAt
      (do
        Step.passSemicolon
        return (x, value)) zs := .passSemicolon_bind fun us _ => .pure _ us
  refine .bind (.name _) fun x ys hys => .peek_bind ?_
  dsimp only
  split
  · refine .advance_bind (.advance_bind (.bind (exprOrNull_settles hexpr ?_) fun value zs _ => hend x value zs))
    simp only [List.length_tail]
    omega
  · exact .bind (.pure _ _) fun value zs _ => hend x value zs

omit hexpr in
include hblock in
theorem functionDecl_settles (hx : xs.length ≤ n) (hpos : 0 < n) : SettlesAt (functionDecl n block) xs :=
  .bind (.name _) fun _ _ _ => .bind (functionLit_settles hblock (by omega) hpos) fun _ _ _ =>
    .passSemicolon_bind fun us _ => .pure _ us

omit hexpr in
/-- A parameter of a constructor has no parts that are read by other handlers. -/
theorem constructorParam_settles : SettlesAt constructorParam xs := by
  refine .kind_bind ?_
  split
  · exact .expect_bind fun _ => .bind (.name _) fun _ ys _ => .pure _ ys
  · exact .literal_bind fun x => .pure _ _
  · exact .report_fail _ _

omit hexpr in
include hblock in
theorem constructor_settles (hx : xs.length ≤ n) (hpos : 0 < n) : SettlesAt (constructor n block) xs := by
  refine .expect_bind fun _ => ?_
  refine .bind (items_settles (fun ys _ => .advance_bind constructorParam_settles) ?_ hpos) fun _ ys hys => ?_
  · rw [List.length_tail]; omega
  · rw [List.length_tail] at hys
    exact .bind (bracedBlock_settles hblock (by omega) hpos) fun _ zs _ => .pure _ zs

include hblock in
/-- A member is read behind its first token. What begins none is reported. -/
theorem member_settles (decl : ClassDecl) (hx : xs.length ≤ n) (hpos : 0 < n) :
    SettlesAt (member n expr block decl) xs := by
  refine .kind_bind ?_
  split
  · refine .attempt_bind (binding_settles hexpr hx hpos) fun a ys _ => ?_
    split <;> exact .pure _ ys
  · refine .attempt_bind (functionDecl_settles hblock hx hpos) fun a ys _ => ?_
    split <;> exact .pure _ ys
  · split
    case' isTrue => refine .report_bind ?_
    all_goals
      refine .attempt_bind (constructor_settles hblock hx hpos) fun a ys _ => ?_
      split <;> exact .pure _ ys
  · exact .pure _ _
  · exact .report_bind (.pure _ _)

include hblock in
/-- Each member uses up a token or ends the class. -/
theorem members_settles (decl : ClassDecl) (hm : xs.length < m) (hx : xs.length ≤ n) (hpos : 0 < n) :
    SettlesAt (members n expr block m decl) xs := by
  induction m generalizing xs decl with
  | zero => omega
  | succ m ih =>
    refine .kind_bind ?_
    split
    · exact .pure _ _
    · exact .report_fail _ _
    · next heof =>
      have hlength := length_pos_of_kindOf heof
      refine .bind (member_settles hexpr hblock decl hx hpos) fun decl ys hys => .advance_bind ?_
      have htail := ys.length_tail
      exact ih decl (by omega) (by omega)

include hblock in
/-- Members are read behind the brace of the class. -/
theorem classDecl_settles (hx : xs.length ≤ n) (hpos : 0 < n) : SettlesAt (classDecl n expr block) xs := by
  refine .bind (.name _) fun name ys hys => .expect_bind fun _ => .advance_bind ?_
  refine members_settles hexpr hblock _ ?_ ?_ hpos
  · simp only [List.length_tail]; omega
  · simp only [List.length_tail]; omega

/-- A result is read behind `return`. -/
theorem returnStatement_settles (hx : xs.length ≤ n) (hpos : 0 < n) : SettlesAt (returnStatement expr) xs := by
  have hend (value : Expr) (zs : List Token) : SettlesAt
      (do
        Step.passSemicolon
        return Stmt.ret value) zs := .passSemicolon_bind fun us _ => .pure _ us
  refine .peek_bind ?_
  dsimp only
  split
  case h_4 =>
    refine .advance_bind (.bind (exprOrNull_settles hexpr ?_) fun value zs _ => hend value zs)
    rw [List.length_tail]
    omega
  all_goals exact .bind (.pure _ _) fun value zs _ => hend value zs

theorem expressionStatement_settles (hx : xs.length < n) : SettlesAt (expressionStatement expr) xs :=
  .bind (exprOrNull_settles hexpr hx) fun _ _ _ => .passSemicolon_bind fun us _ => .pure _ us

include hblock in
/-- The forms of statements, told apart by their first token. -/
theorem statement_settles (hx : xs.length < n) : SettlesAt (statement n expr block) xs := by
  have hpos : 0 < n := by omega
  refine .kind_bind (.peek_bind ?_)
  split
  · exact .bind (binding_settles hexpr (Nat.le_of_lt hx) hpos) fun _ ys _ => .pure _ ys
  · exact returnStatement_settles hexpr (Nat.le_of_lt hx) hpos
  · exact .bind (functionDecl_settles hblock (Nat.le_of_lt hx) hpos) fun _ ys _ => .pure _ ys
  · exact .bind (classDecl_settles hexpr hblock (Nat.le_of_lt hx) hpos) fun _ ys _ => .pure _ ys
  · exact expressionStatement_settles hexpr hx

include hblock in
/-- Each statement uses up a token, so the bound is not met. -/
theorem statements_settles {ends : TokenKind → Bool} (heof : ends .eof) (hm : xs.length < m) (hx : xs.length < n) :
    SettlesAt (statements n expr block ends m) xs := by
  induction m generalizing xs with
  | zero => omega
  | succ m ih =>
    refine .kind_bind ?_
    split
    · exact .pure _ _
    · next hends =>
      have hlength : 0 < xs.length := length_pos_of_kindOf fun h => hends (h ▸ heof)
      refine .attempt_bind (statement_settles hexpr hblock hx) fun first ys hys => .advance_bind ?_
      have htail := ys.length_tail
      exact .bind (ih (by omega) (by omega)) fun _ zs _ => .pure _ zs

include hblock in
theorem blockBody_settles (hx : xs.length ≤ n) (hpos : 0 < xs.length) : SettlesAt (blockBody n expr block) xs := by
  have htail : xs.tail.length < n := by
    rw [List.length_tail]
    omega
  refine .advance_bind (.bind (statements_settles hexpr hblock rfl htail htail) fun body ys _ => .kind_bind ?_)
  split
  · exact .report_bind (.pure _ _)
  · exact .pure _ _

end Handlers

/-! ## The loops over members and statements -/

section Loop

open Step

variable {expr : Precedence → Step Expr} {block : Step (List Stmt)} {ends : TokenKind → Bool}

/-- What is neither the end of a class nor the end of the source is read as a member. -/
theorem members_of_member {decl : ClassDecl} (hclose : kindOf xs ≠ .rbrace) (heof : kindOf xs ≠ .eof) :
    members n expr block (m + 1) decl xs =
      (do
        let decl ← member n expr block decl
        advance
        members n expr block m decl : Step ClassDecl) xs := by
  rw [members, kind_bind_eq]
  generalize kindOf xs = k at *
  cases k with
  | rbrace => exact absurd rfl hclose
  | eof => exact absurd rfl heof
  | _ => rfl

/-- The loop over statements is over where a token ends it. -/
theorem statements_of_ends (h : ends (kindOf xs)) :
    statements n expr block ends (m + 1) xs = some ⟨some [], [], xs⟩ := by
  rw [statements, kind_bind_eq, if_pos h]
  rfl

/-- Elsewhere it reads a statement and goes on behind it. -/
theorem statements_of_not_ends (h : ends (kindOf xs) = false) :
    statements n expr block ends (m + 1) xs = (statement n expr block xs).bind fun first =>
      (statements n expr block ends m first.rest.tail).map fun rest =>
        ⟨rest.node.map (first.node.toList ++ ·), first.errors ++ rest.errors, rest.rest⟩ := by
  rw [statements, kind_bind_eq, h, if_neg Bool.false_ne_true, bind_eq, attempt]
  cases statement n expr block xs with
  | none => rfl
  | some first =>
    dsimp only [Option.map_some, Option.bind_some]
    rw [advance_bind_eq, bind_eq]
    cases statements n expr block ends m first.rest.tail with
    | none => rfl
    | some rest =>
      obtain ⟨_ | body, errors, zs⟩ := rest
      · rfl
      · show some (⟨_, first.errors ++ (errors ++ []), zs⟩ : Reply (List Stmt)) = _
        rw [List.append_nil]
        rfl

/-- It always leaves statements. -/
theorem statements_node {r : Reply (List Stmt)} (h : statements n expr block ends m xs = some r) :
    ∃ body, r.node = some body := by
  induction m generalizing xs r with
  | zero => cases h
  | succ m ih =>
    cases hends : ends (kindOf xs) with
    | true =>
      rw [statements_of_ends hends] at h
      cases h
      exact ⟨[], rfl⟩
    | false =>
      rw [statements_of_not_ends hends, Option.bind_eq_some_iff] at h
      obtain ⟨first, _, h⟩ := h
      obtain ⟨rest, hrest, rfl⟩ := Option.map_eq_some_iff.1 h
      obtain ⟨body, hbody⟩ := ih hrest
      exact ⟨first.node.toList ++ body, by rw [hbody]; rfl⟩

end Loop

/-! ## The whole parser -/

/-- Expressions and blocks of all depths, by induction on the bound: parts are read from fewer tokens. -/
theorem nested_settles (n : Nat) : (∀ p xs, xs.length < n → SettlesAt (expr n p) xs) ∧
    ∀ xs, 0 < xs.length → xs.length < n → SettlesAt (block n) xs := by
  induction n with
  | zero => exact ⟨nofun, nofun⟩
  | succ n ih =>
    obtain ⟨hexpr, hblock⟩ := ih
    constructor
    · intro p xs hx
      obtain rfl | hpos := n.eq_zero_or_pos
      · -- without a token there is no round, and no need of one
        obtain rfl : xs = [] := List.eq_nil_of_length_eq_zero (by omega)
        exact .bind_of (.kind_bind (.report_fail _ _)) fun _ _ _ hr _ => by cases hr
      · exact expression_settles hexpr hblock p (by omega) hpos
    · intro xs hpos hx
      exact blockBody_settles hexpr hblock (by omega) hpos

/-- Every list of tokens that is shorter than the bound has a reply: a program, or an error. -/
theorem program_settles (hx : xs.length < n) : SettlesAt (program n) xs := by
  obtain ⟨hexpr, hblock⟩ := nested_settles n
  exact statements_settles hexpr hblock rfl hx hx

end Parse

end Pron
