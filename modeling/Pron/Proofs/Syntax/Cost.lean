import Mathlib
import Pron.Proofs.Syntax.Lockstep

/-!
# The size of what is read

A list of tokens has no more statements than tokens, and no more errors than twice that. Each handler pays for what it
leaves with the tokens it passes (`Step.Thrifty`): where it gets from `xs` to `ys`, it leaves at most
`2 * (|xs| - |ys|) - 1` errors and `|xs| - |ys| - 1` statements, and one error more where it gives the construct up. So
what is read next can spend the next token afresh. Only the second constructor of a class takes another error.
-/

namespace Pron

/-! ## Counting statements -/

mutual

/-- The number of statements inside of an expression. -/
def Expr.stmtCount : Expr → Nat
  | .null | .name _ | .thisName _ | .integer _ | .real _ | .text _ | .boolean _ | .increment _ | .decrement _ => 0
  | .unary _ operand => operand.stmtCount
  | .binary _ left right => left.stmtCount + right.stmtCount
  | .conditional branches otherwise => branchesStmtCount branches + otherwiseStmtCount otherwise
  | .function literal => literal.stmtCount
  | .call function arguments => function.stmtCount + exprsStmtCount arguments
  | .array elements => exprsStmtCount elements
  | .index container index => container.stmtCount + index.stmtCount
  | .hash pairs => pairsStmtCount pairs
  | .rangeFor _ start stop body => start.stmtCount + (stop.stmtCount + blockStmtCount body)
  | .collectionFor _ _ body => blockStmtCount body
  | .new _ arguments | .methodCall _ _ arguments => exprsStmtCount arguments

/-- The number of statements that a statement consists of, itself included. -/
def Stmt.stmtCount : Stmt → Nat
  | .var _ value => value.stmtCount + 1
  | .ret value => value.stmtCount + 1
  | .expr e => e.stmtCount + 1
  | .function decl => decl.stmtCount + 1
  | .classDecl decl => decl.stmtCount + 1

/-- The number of statements in a block or a program, nested ones included. -/
def blockStmtCount : List Stmt → Nat
  | [] => 0
  | s :: rest => s.stmtCount + blockStmtCount rest

def exprsStmtCount : List Expr → Nat
  | [] => 0
  | e :: rest => e.stmtCount + exprsStmtCount rest

def branchesStmtCount : List Branch → Nat
  | [] => 0
  | b :: rest => b.stmtCount + branchesStmtCount rest

def Branch.stmtCount : Branch → Nat
  | ⟨condition, body⟩ => condition.stmtCount + blockStmtCount body

def otherwiseStmtCount : Option (List Stmt) → Nat
  | none => 0
  | some body => blockStmtCount body

def pairsStmtCount : List KeyValue → Nat
  | [] => 0
  | p :: rest => p.stmtCount + pairsStmtCount rest

def KeyValue.stmtCount : KeyValue → Nat
  | ⟨key, value⟩ => key.stmtCount + value.stmtCount

def FunctionLit.stmtCount : FunctionLit → Nat
  | ⟨_, body⟩ => blockStmtCount body

def FunctionDecl.stmtCount : FunctionDecl → Nat
  | ⟨_, literal, _⟩ => literal.stmtCount

def methodsStmtCount : List FunctionDecl → Nat
  | [] => 0
  | m :: rest => m.stmtCount + methodsStmtCount rest

def FieldDecl.stmtCount : FieldDecl → Nat
  | ⟨_, value⟩ => value.stmtCount

def fieldsStmtCount : List FieldDecl → Nat
  | [] => 0
  | f :: rest => f.stmtCount + fieldsStmtCount rest

def Constructor.stmtCount : Constructor → Nat
  | ⟨_, body⟩ => blockStmtCount body

def initStmtCount : Option Constructor → Nat
  | none => 0
  | some init => init.stmtCount

/-- The number of statements inside of a class. -/
def ClassDecl.stmtCount : ClassDecl → Nat
  | ⟨_, fields, methods, init⟩ => fieldsStmtCount fields + (methodsStmtCount methods + initStmtCount init)

end

attribute [simp] Expr.stmtCount Stmt.stmtCount blockStmtCount exprsStmtCount branchesStmtCount Branch.stmtCount
  otherwiseStmtCount pairsStmtCount KeyValue.stmtCount FunctionLit.stmtCount FunctionDecl.stmtCount methodsStmtCount
  FieldDecl.stmtCount fieldsStmtCount Constructor.stmtCount initStmtCount ClassDecl.stmtCount

/-- The statements of two blocks, one behind the other. -/
theorem blockStmtCount_append (b c : List Stmt) : blockStmtCount (b ++ c) = blockStmtCount b + blockStmtCount c := by
  induction b with
  | nil => rw [List.nil_append, blockStmtCount, Nat.zero_add]
  | cons s b ih => rw [List.cons_append, blockStmtCount, blockStmtCount, ih, Nat.add_assoc]

theorem exprsStmtCount_eq (es : List Expr) : exprsStmtCount es = (es.map Expr.stmtCount).sum := by
  induction es with
  | nil => rfl
  | cons e es ih => rw [exprsStmtCount, ih, List.map_cons, List.sum_cons]

/-- A method that is added brings its statements. -/
theorem methodsStmtCount_append (ms : List FunctionDecl) (m : FunctionDecl) :
    methodsStmtCount (ms ++ [m]) = methodsStmtCount ms + m.stmtCount := by
  induction ms with
  | nil => simp [methodsStmtCount]
  | cons _ _ ih => rw [List.cons_append, methodsStmtCount, methodsStmtCount, ih, Nat.add_assoc]

/-- A field that is added brings the statements of its value. -/
theorem fieldsStmtCount_append (fs : List FieldDecl) (f : FieldDecl) :
    fieldsStmtCount (fs ++ [f]) = fieldsStmtCount fs + f.stmtCount := by
  induction fs with
  | nil => simp [fieldsStmtCount]
  | cons _ _ ih => rw [List.cons_append, fieldsStmtCount, fieldsStmtCount, ih, Nat.add_assoc]

namespace Step

variable {α β : Type} {p : Step α} {f : α → Step β} {k : TokenKind} {xs : List Token} {s : Nat} {count : α → Nat}
  {count' : β → Nat}

/-! ## Paying with tokens -/

/-- A step pays with the tokens it passes for the errors and the statements that it leaves. It has credit for `s` more
errors, and for one where it leaves no node. -/
def Thrifty (s : Nat) (count : α → Nat) (p : Step α) (xs : List Token) : Prop :=
  ∀ r, p xs = some r → r.rest.length ≤ xs.length ∧
    (∀ a, r.node = some a → r.errors.length ≤ 2 * (xs.length - r.rest.length) - 1 + s ∧
      count a ≤ xs.length - r.rest.length - 1) ∧
    r.errors.length ≤ 2 * (xs.length - r.rest.length) - 1 + max s 1

/-- A step leaves a node, no error and no more tokens. -/
def Quiet (p : Step α) (xs : List Token) (a : α) : Prop :=
  ∃ ys, p xs = some ⟨some a, [], ys⟩ ∧ ys.length ≤ xs.length

theorem Quiet.pure (a : α) (xs : List Token) : Quiet (Pure.pure a) xs a := ⟨xs, rfl, Nat.le_refl _⟩

/-- A semicolon costs nothing. -/
theorem Quiet.passSemicolon (a : α) (xs : List Token) : Quiet
    (do
      passSemicolon
      return a) xs a := by
  by_cases h : kindOf xs.tail = .semicolon
  · refine ⟨xs.tail, ?_, by simp⟩
    simp only [Step.passSemicolon, bind_eq, peek, h, if_true]
    rfl
  · refine ⟨xs, ?_, Nat.le_refl _⟩
    simp only [Step.passSemicolon, bind_eq, peek, h, if_false]
    rfl

namespace Thrifty

/-- A step without errors and statements pays with what it has. -/
theorem of_quiet {a : α} (hp : Quiet p xs a) (h : count a = 0) : Thrifty s count p xs := by
  obtain ⟨ys, hp, hlength⟩ := hp
  rintro _ hr
  rw [hp] at hr
  cases hr
  refine ⟨hlength, fun _ ha => ?_, Nat.zero_le _⟩
  cases ha
  exact ⟨Nat.zero_le _, h ▸ Nat.zero_le _⟩

/-- A node without statements is free. -/
theorem pure {a : α} (h : count a = 0) : Thrifty s count (Pure.pure a) xs := of_quiet (.pure a xs) h

/-- What comes later pays only for what it adds. -/
theorem bind (hp : Thrifty 0 count p xs)
    (hf : ∀ a ys, ys.length ≤ xs.length → Thrifty s (fun b => count' b - count a) (f a) ys) :
    Thrifty s count' (p >>= f) xs := by
  intro r hr
  obtain ⟨errors, ys, hpx, rfl⟩ | ⟨a, errors, ys, r', hpx, hfy, rfl⟩ := bind_cases hr
  · obtain ⟨hlength, -, hfail⟩ := hp _ hpx
    exact ⟨hlength, nofun, by dsimp only at *; omega⟩
  · obtain ⟨hlength, hnode, -⟩ := hp _ hpx
    obtain ⟨herrors, hcount⟩ := hnode a rfl
    obtain ⟨hlength', hnode', hfail'⟩ := hf a ys hlength r' hfy
    dsimp only at *
    rw [List.length_append]
    refine ⟨by omega, fun b hb => ?_, by omega⟩
    obtain ⟨herrors', hcount'⟩ := hnode' b hb
    omega

/-- Fewer statements cost less. -/
theorem mono {count' : α → Nat} (hp : Thrifty s count p xs) (h : ∀ a, count' a ≤ count a) : Thrifty s count' p xs := by
  intro r hr
  obtain ⟨hlength, hnode, hfail⟩ := hp r hr
  exact ⟨hlength, fun a ha => ⟨(hnode a ha).1, Nat.le_trans (h a) (hnode a ha).2⟩, hfail⟩

/-- More errors may be on credit. -/
theorem credit {s' : Nat} (hp : Thrifty s count p xs) (hs : s ≤ s') : Thrifty s' count p xs := by
  intro r hr
  obtain ⟨hlength, hnode, hfail⟩ := hp r hr
  refine ⟨hlength, fun a ha => ?_, by omega⟩
  obtain ⟨herrors, hcount⟩ := hnode a ha
  omega

/-- A step in front that leaves nothing to pay for. -/
theorem bind_done {a : α} {ys : List Token} (hp : p xs = some ⟨some a, [], ys⟩) (hlength : ys.length ≤ xs.length)
    (hf : Thrifty s count' (f a) ys) : Thrifty s count' (p >>= f) xs := by
  intro r hr
  obtain ⟨_, _, hp', -⟩ | ⟨_, _, _, r', hp', hfy, rfl⟩ := bind_cases hr
  · rw [hp] at hp'
    cases hp'
  · rw [hp] at hp'
    cases hp'
    obtain ⟨hlength', hnode, hfail⟩ := hf r' hfy
    dsimp only [List.nil_append]
    refine ⟨by omega, fun b hb => ?_, by omega⟩
    obtain ⟨herrors, hcount⟩ := hnode b hb
    omega

/-- A step without a reply costs nothing. -/
theorem exhausted : Thrifty s count (Step.exhausted : Step α) xs := nofun

/-- A construct that is given up may leave one error more than is paid for. -/
theorem report_fail (e : SyntaxError) : Thrifty s count (do report e; fail : Step α) xs := by
  rintro _ ⟨⟩
  refine ⟨Nat.le_refl _, nofun, ?_⟩
  show 1 ≤ _
  omega

/-- An error on credit. -/
theorem report_bind {e : SyntaxError} {f : Unit → Step β} (hs : 0 < s) (hf : Thrifty s count' (f ()) xs) :
    Thrifty (s + 1) count' (report e >>= f) xs := by
  intro r hr
  obtain ⟨_, _, ⟨⟩, -⟩ | ⟨_, _, _, r', ⟨⟩, hfx, rfl⟩ := bind_cases hr
  obtain ⟨hlength, hnode, hfail⟩ := hf r' hfx
  dsimp only
  rw [List.singleton_append, List.length_cons]
  refine ⟨hlength, fun b hb => ?_, by omega⟩
  obtain ⟨herrors, hcount⟩ := hnode b hb
  omega

theorem kind_bind {f : TokenKind → Step β} (hf : Thrifty s count' (f (kindOf xs)) xs) :
    Thrifty s count' (kind >>= f) xs := bind_done rfl (Nat.le_refl _) hf

theorem peek_bind {f : TokenKind → Step β} (hf : Thrifty s count' (f (kindOf xs.tail)) xs) :
    Thrifty s count' (peek >>= f) xs := bind_done rfl (Nat.le_refl _) hf

theorem literal_bind {f : String → Step β} (hf : ∀ x, Thrifty s count' (f x) xs) :
    Thrifty s count' (literal >>= f) xs :=
  bind_done rfl (Nat.le_refl _) (hf _)

theorem advance_bind {f : Unit → Step β} (hf : Thrifty s count' (f ()) xs.tail) : Thrifty s count' (advance >>= f) xs :=
  bind_done rfl (by simp) hf

/-- The token that is passed pays for what follows. -/
theorem expect_bind {f : Unit → Step β} (hf : kindOf xs.tail = k → Thrifty s count' (f ()) xs.tail) :
    Thrifty s count' (expect k >>= f) xs := by
  by_cases hk : kindOf xs.tail = k
  · exact bind_done (expect_of_eq hk) (by simp) (hf hk)
  · intro r hr
    obtain ⟨_, _, hp, rfl⟩ | ⟨_, _, _, _, hp, -⟩ := bind_cases hr
    · rw [expect_of_ne hk] at hp
      cases hp
      refine ⟨Nat.le_refl _, nofun, ?_⟩
      show 1 ≤ _
      omega
    · rw [expect_of_ne hk] at hp
      cases hp

/-- A token that is not there costs the error that gives the construct up. -/
theorem expect : Thrifty 0 (fun _ => 0) (expect k) xs := by
  refine peek_bind ?_
  split
  · exact of_quiet ⟨_, rfl, by simp⟩ rfl
  · exact report_fail _

theorem name : Thrifty 0 (fun _ => 0) name xs := expect_bind fun _ => of_quiet ⟨_, rfl, Nat.le_refl _⟩ rfl

/-- Where a failure is an answer, its error is on credit. -/
theorem attempt (hp : Thrifty s count p xs) :
    Thrifty (max s 1) (fun node => (node.map count).getD 0) (attempt p) xs := by
  intro r hr
  obtain ⟨first, hfirst, rfl⟩ := Option.map_eq_some_iff.1 hr
  obtain ⟨hlength, hnode, hfail⟩ := hp first hfirst
  refine ⟨hlength, fun node hnode' => ⟨by dsimp only at *; omega, ?_⟩, by dsimp only at *; omega⟩
  cases hnode'
  cases hfirst : first.node with
  | none => exact Nat.zero_le _
  | some a => exact (hnode a hfirst).2

/-- What comes later costs nothing. -/
theorem bind_quiet (hp : Thrifty s count p xs)
    (hf : ∀ a ys, ∃ b, Quiet (f a) ys b ∧ count' b ≤ count a) : Thrifty s count' (p >>= f) xs := by
  intro r hr
  obtain ⟨errors, ys, hpx, rfl⟩ | ⟨a, errors, ys, r', hpx, hfy, rfl⟩ := bind_cases hr
  · obtain ⟨hlength, -, hfail⟩ := hp _ hpx
    exact ⟨hlength, nofun, hfail⟩
  · obtain ⟨hlength, hnode, hfail⟩ := hp _ hpx
    obtain ⟨herrors, hcount⟩ := hnode a rfl
    obtain ⟨b, ⟨zs, hquiet, hlength'⟩, hle⟩ := hf a ys
    rw [hquiet] at hfy
    cases hfy
    dsimp only at *
    rw [List.append_nil]
    refine ⟨by omega, fun c hc => ?_, by omega⟩
    cases hc
    omega

end Thrifty

end Step

namespace Parse

open Step

variable {α : Type} {n m : Nat} {xs : List Token}

/-! ## Lists -/

section Lists

variable {item : Step α} {count : α → Nat} {close : TokenKind} (hitem : ∀ xs, Thrifty 0 count item xs)

include hitem

/-- Each item is paid for behind its comma. -/
theorem moreItems_thrifty : Thrifty 0 (fun as => (as.map count).sum) (moreItems item m) xs := by
  induction m generalizing xs with
  | zero => exact .exhausted
  | succ m ih =>
    refine .peek_bind ?_
    split
    · refine .advance_bind (.bind (hitem _) fun first _ _ => .bind ih fun rest _ _ => .pure ?_)
      rw [List.map_cons, List.sum_cons]
      omega
    · exact .pure rfl

/-- A list costs what its items do. -/
theorem items_thrifty : Thrifty 0 (fun as => (as.map count).sum) (items n close item) xs := by
  refine .peek_bind ?_
  split
  · exact .advance_bind (.pure rfl)
  · refine .bind (hitem _) fun first _ _ => .bind (moreItems_thrifty hitem) fun rest _ _ => ?_
    refine .expect_bind fun _ => .pure ?_
    rw [List.map_cons, List.sum_cons]
    omega

end Lists

/-! ## Expressions -/

section Handlers

variable {expr : Precedence → Step Expr} {block : Step (List Stmt)}
  (hexpr : ∀ p xs, Thrifty 0 Expr.stmtCount (expr p) xs)
  (hblock : ∀ xs, xs ≠ [] → Thrifty 0 blockStmtCount block xs)

include hexpr in
theorem arguments_thrifty {close : TokenKind} : Thrifty 0 exprsStmtCount (arguments n expr close) xs := by
  have hitem (ys : List Token) : Thrifty 0 Expr.stmtCount
      (do
        advance
        expr .lowest) ys := .advance_bind (hexpr _ _)
  exact (items_thrifty hitem).mono fun es => Nat.le_of_eq (exprsStmtCount_eq es)

/-- Names have no statements. -/
theorem parameters_thrifty : Thrifty 0 (fun _ => 0) (parameters n) xs :=
  .expect_bind fun _ => (items_thrifty fun _ => .name).mono fun _ => Nat.zero_le _

include hblock in
theorem bracedBlock_thrifty : Thrifty 0 blockStmtCount (bracedBlock block) xs :=
  .expect_bind fun h => hblock _ (ne_nil_of_kindOf (by rw [h]; nofun))

include hblock in
theorem functionLit_thrifty : Thrifty 0 FunctionLit.stmtCount (functionLit n block) xs := by
  refine .bind parameters_thrifty fun _ _ _ => .bind (bracedBlock_thrifty hblock) fun _ _ _ => .pure ?_
  rw [FunctionLit.stmtCount]
  omega

include hexpr in
/-- Only the arguments of a method call have statements. -/
theorem nameForm_thrifty : Thrifty 0 Expr.stmtCount (nameForm n expr) xs := by
  refine .literal_bind fun x => .peek_bind ?_
  split
  · refine .advance_bind (.bind .name fun _ _ _ => .expect_bind fun _ => ?_)
    refine .bind (arguments_thrifty hexpr) fun _ _ _ => .pure ?_
    rw [Expr.stmtCount]
    omega
  · exact .advance_bind (.pure rfl)
  · exact .advance_bind (.pure rfl)
  · exact .pure rfl

theorem thisForm_thrifty : Thrifty 0 Expr.stmtCount thisForm xs :=
  .expect_bind fun _ => .bind .name fun _ _ _ => .pure rfl

/-- Digits out of range give the operand up. -/
theorem integerForm_thrifty : Thrifty 0 Expr.stmtCount integerForm xs := by
  refine .literal_bind fun x => ?_
  split
  · exact .pure rfl
  · exact .report_fail _

theorem realForm_thrifty : Thrifty 0 Expr.stmtCount realForm xs := by
  refine .literal_bind fun x => ?_
  split
  · exact .pure rfl
  · exact .report_fail _

include hexpr in
theorem unaryForm_thrifty (op : UnaryOp) : Thrifty 0 Expr.stmtCount (unaryForm expr op) xs := by
  refine .advance_bind (.bind (hexpr _ _) fun _ _ _ => .pure ?_)
  rw [Expr.stmtCount]
  omega

include hexpr in
theorem groupForm_thrifty : Thrifty 0 Expr.stmtCount (groupForm expr) xs :=
  .advance_bind (.bind (hexpr _ _) fun _ _ _ => .expect_bind fun _ => .pure (Nat.sub_self _))

include hexpr hblock in
theorem branch_thrifty : Thrifty 0 Branch.stmtCount (branch expr block) xs := by
  refine .expect_bind fun _ => .advance_bind (.bind (hexpr _ _) fun _ _ _ => .expect_bind fun _ => ?_)
  refine .bind (bracedBlock_thrifty hblock) fun _ _ _ => .pure ?_
  rw [Branch.stmtCount]
  omega

include hexpr hblock in
/-- Each branch is paid for behind its `elif`. -/
theorem moreBranches_thrifty : Thrifty 0 branchesStmtCount (moreBranches expr block m) xs := by
  induction m generalizing xs with
  | zero => exact .exhausted
  | succ m ih =>
    refine .peek_bind ?_
    split
    · refine .advance_bind (.bind (branch_thrifty hexpr hblock) fun _ _ _ => .bind ih fun _ _ _ => .pure ?_)
      rw [branchesStmtCount]
      omega
    · exact .pure rfl

include hexpr hblock in
/-- All branches and the last block are paid for behind `if`. -/
theorem conditionalForm_thrifty : Thrifty 0 Expr.stmtCount (conditionalForm n expr block) xs := by
  refine .bind (branch_thrifty hexpr hblock) fun first _ _ => ?_
  refine .bind (moreBranches_thrifty hexpr hblock) fun more _ _ => .peek_bind ?_
  split
  · refine .advance_bind (.bind (bracedBlock_thrifty hblock) fun _ _ _ => .pure ?_)
    rw [Expr.stmtCount, branchesStmtCount, otherwiseStmtCount]
    omega
  · refine .pure ?_
    rw [Expr.stmtCount, branchesStmtCount, otherwiseStmtCount]
    omega

include hexpr in
/-- Keys and values are paid for one after the other. -/
theorem hashPairs_thrifty : Thrifty 0 pairsStmtCount (hashPairs expr m) xs := by
  induction m generalizing xs with
  | zero => exact .exhausted
  | succ m ih =>
    refine .peek_bind ?_
    split
    · exact .pure rfl
    refine .advance_bind (.bind (hexpr _ _) fun key _ _ => .expect_bind fun _ => .advance_bind ?_)
    refine .bind (hexpr _ _) fun value us _ => .peek_bind ?_
    have hrest (us : List Token) : Thrifty 0
        (fun pairs => pairsStmtCount pairs - key.stmtCount - value.stmtCount)
        (do
          let rest ← hashPairs expr m
          return { key, value } :: rest) us := by
      refine .bind ih fun _ _ _ => .pure ?_
      rw [pairsStmtCount, KeyValue.stmtCount]
      omega
    split
    · exact .expect_bind fun _ => hrest _
    · exact hrest _

include hexpr in
theorem hashForm_thrifty : Thrifty 0 Expr.stmtCount (hashForm n expr) xs := by
  refine .bind (hashPairs_thrifty hexpr) fun _ _ _ => .expect_bind fun _ => .pure ?_
  rw [Expr.stmtCount]
  omega

include hexpr hblock in
theorem loopForm_thrifty : Thrifty 0 Expr.stmtCount (loopForm expr block) xs := by
  refine .expect_bind fun _ => .bind .name fun x _ _ => .peek_bind ?_
  split
  · refine .advance_bind (.advance_bind (.bind (hexpr _ _) fun _ _ _ => .expect_bind fun _ => .advance_bind ?_))
    refine .bind (hexpr _ _) fun _ _ _ => .expect_bind fun _ => .bind (bracedBlock_thrifty hblock) fun _ _ _ => .pure ?_
    rw [Expr.stmtCount]
    omega
  · refine .advance_bind (.bind .name fun _ _ _ => .expect_bind fun _ => ?_)
    refine .bind (bracedBlock_thrifty hblock) fun _ _ _ => .pure ?_
    rw [Expr.stmtCount]
    omega
  · exact .report_fail _

include hexpr in
theorem newForm_thrifty : Thrifty 0 Expr.stmtCount (newForm n expr) xs := by
  refine .bind .name fun _ _ _ => .expect_bind fun _ => .bind (arguments_thrifty hexpr) fun _ _ _ => .pure ?_
  rw [Expr.stmtCount]
  omega

include hexpr hblock in
/-- The forms of operands. What begins none costs an error and gives the expression up. -/
theorem operand_thrifty : Thrifty 0 Expr.stmtCount (operand n expr block) xs := by
  refine .kind_bind ?_
  split
  · exact nameForm_thrifty hexpr
  · exact thisForm_thrifty
  · exact integerForm_thrifty
  · exact realForm_thrifty
  · exact .literal_bind fun _ => .pure rfl
  · exact .pure rfl
  · exact .pure rfl
  · exact unaryForm_thrifty hexpr _
  · exact unaryForm_thrifty hexpr _
  · exact groupForm_thrifty hexpr
  · exact conditionalForm_thrifty hexpr hblock
  · refine .bind (functionLit_thrifty hblock) fun _ _ _ => .pure ?_
    rw [Expr.stmtCount]
    omega
  · refine .bind (arguments_thrifty hexpr) fun _ _ _ => .pure ?_
    rw [Expr.stmtCount]
    omega
  · exact hashForm_thrifty hexpr
  · exact loopForm_thrifty hexpr hblock
  · exact newForm_thrifty hexpr
  · exact .report_fail _

include hexpr in
/-- What continues an expression pays for what it adds. -/
theorem continueWith_thrifty (left : Expr) (c : Continuation) :
    Thrifty 0 (fun e => e.stmtCount - left.stmtCount) (continueWith n expr left c) xs := by
  cases c with
  | operator op =>
    refine .advance_bind (.bind (hexpr _ _) fun _ _ _ => .pure ?_)
    rw [Expr.stmtCount]
    omega
  | call =>
    refine .bind (arguments_thrifty hexpr) fun _ _ _ => .pure ?_
    rw [Expr.stmtCount]
    omega
  | index =>
    refine .advance_bind (.bind (hexpr _ _) fun _ _ _ => .expect_bind fun _ => .pure ?_)
    rw [Expr.stmtCount]
    omega

include hexpr in
/-- Each continuation pays for what it adds to the expression. -/
theorem continuations_thrifty (p : Precedence) (left : Expr) :
    Thrifty 0 (fun e => e.stmtCount - left.stmtCount) (continuations n expr p m left) xs := by
  induction m generalizing xs left with
  | zero => exact .exhausted
  | succ m ih =>
    refine .peek_bind ?_
    split
    · exact .pure (Nat.sub_self _)
    · split
      · refine .advance_bind (.bind (continueWith_thrifty hexpr left _) fun longer _ _ => ?_)
        exact (ih longer).mono fun e => by omega
      · exact .pure (Nat.sub_self _)

include hexpr hblock in
theorem expression_thrifty (p : Precedence) : Thrifty 0 Expr.stmtCount (expression n expr block p) xs :=
  .bind (operand_thrifty hexpr hblock) fun left _ _ => continuations_thrifty hexpr p left

/-! ## Statements -/

include hexpr in
/-- A missing expression costs one error, on credit. -/
theorem exprOrNull_thrifty : Thrifty 1 Expr.stmtCount (exprOrNull expr) xs := by
  refine .bind_quiet (hexpr _ _).attempt fun node ys => ⟨_, .pure _ ys, ?_⟩
  cases node <;> exact Nat.le_refl _

include hexpr in
/-- The value may be missing, which is on credit. -/
theorem binding_thrifty : Thrifty 1 (fun field => field.2.stmtCount) (binding expr) xs := by
  refine .bind .name fun x ys _ => .peek_bind ?_
  dsimp only
  split
  · refine .advance_bind (.advance_bind (.bind_quiet (exprOrNull_thrifty hexpr) fun value zs => ?_))
    exact ⟨_, .passSemicolon _ zs, Nat.le_refl _⟩
  · refine .bind_done rfl (Nat.le_refl _) ?_
    exact .of_quiet (.passSemicolon _ ys) rfl

include hblock in
theorem functionDecl_thrifty : Thrifty 0 FunctionDecl.stmtCount (functionDecl n block) xs := by
  refine .bind .name fun name _ _ => .bind (functionLit_thrifty hblock) fun literal ys _ => ?_
  refine .of_quiet (.passSemicolon _ ys) ?_
  rw [FunctionDecl.stmtCount]
  omega

include hexpr in
/-- The statement itself is paid for by the block, as is the error for a missing result. -/
theorem returnStatement_thrifty : Thrifty 1 (fun st => st.stmtCount - 1) (returnStatement expr) xs := by
  refine .peek_bind ?_
  dsimp only
  split
  case h_4 =>
    refine .advance_bind (.bind_quiet (exprOrNull_thrifty hexpr) fun value zs => ⟨_, .passSemicolon _ zs, ?_⟩)
    rw [Stmt.stmtCount]
    omega
  all_goals exact .bind_done rfl (Nat.le_refl _) (.of_quiet (.passSemicolon _ xs) rfl)

include hexpr in
theorem expressionStatement_thrifty : Thrifty 1 (fun st => st.stmtCount - 1) (expressionStatement expr) xs := by
  refine .bind_quiet (exprOrNull_thrifty hexpr) fun e ys => ⟨_, .passSemicolon _ ys, ?_⟩
  rw [Stmt.stmtCount]
  omega

/-! ## Classes -/

/-- Parameters have no statements. -/
theorem constructorParam_thrifty : Thrifty 0 (fun _ => 0) constructorParam xs := by
  refine .kind_bind ?_
  split
  · exact .expect_bind fun _ => .bind .name fun _ _ _ => .pure rfl
  · exact .literal_bind fun _ => .pure rfl
  · exact .report_fail _

include hblock in
/-- The body is paid for behind the parameters. -/
theorem constructor_thrifty : Thrifty 0 Constructor.stmtCount (constructor n block) xs := by
  refine .expect_bind fun _ => ?_
  refine .bind (items_thrifty fun _ => .advance_bind constructorParam_thrifty) fun params _ _ => ?_
  refine .bind (bracedBlock_thrifty hblock) fun _ _ _ => .pure ?_
  rw [Constructor.stmtCount]
  omega

include hexpr hblock in
/-- A member pays for what it adds to its class. A second constructor has credit for the error that it is. -/
theorem member_thrifty (decl : ClassDecl) :
    Thrifty 2 (fun decl' => decl'.stmtCount - decl.stmtCount) (member n expr block decl) xs := by
  obtain ⟨name, fields, methods, init⟩ := decl
  refine .kind_bind ?_
  split
  · refine .credit (.bind_quiet (binding_thrifty hexpr).attempt fun node ys => ?_) (Nat.le_succ 1)
    cases node with
    | none => exact ⟨_, .pure _ ys, Nat.le_of_eq (Nat.sub_self _)⟩
    | some field =>
      refine ⟨_, .pure _ ys, ?_⟩
      dsimp only
      rw [ClassDecl.stmtCount, ClassDecl.stmtCount, fieldsStmtCount_append, FieldDecl.stmtCount, Option.map_some,
        Option.getD_some]
      omega
  · refine .credit (.bind_quiet (functionDecl_thrifty hblock).attempt fun node ys => ?_) (Nat.le_succ 1)
    cases node with
    | none => exact ⟨_, .pure _ ys, Nat.le_of_eq (Nat.sub_self _)⟩
    | some method =>
      refine ⟨_, .pure _ ys, ?_⟩
      dsimp only
      rw [ClassDecl.stmtCount, ClassDecl.stmtCount, methodsStmtCount_append, Option.map_some, Option.getD_some]
      omega
  · split
    case' isTrue => refine .report_bind Nat.one_pos ?_
    case' isFalse => refine .credit ?_ (Nat.le_succ 1)
    all_goals
      refine .bind_quiet (constructor_thrifty hblock).attempt fun node ys => ?_
      cases node with
      | none => exact ⟨_, .pure _ ys, Nat.le_of_eq (Nat.sub_self _)⟩
      | some c =>
        refine ⟨_, .pure _ ys, ?_⟩
        dsimp only
        rw [ClassDecl.stmtCount, ClassDecl.stmtCount, initStmtCount, Option.map_some, Option.getD_some]
        omega
  · exact .pure (Nat.sub_self _)
  · exact .report_bind Nat.one_pos (.pure (Nat.sub_self _))

include hexpr hblock in
/-- The members of a class have credit for two errors: for a second constructor that takes the last tokens, and for the
missing brace. -/
theorem members_cost (decl : ClassDecl) {r : Reply ClassDecl} (hr : members n expr block m decl xs = some r) :
    r.rest.length ≤ xs.length ∧ r.errors.length ≤ 2 * (xs.length - r.rest.length) + min xs.length 1 + 1 ∧
      ∀ decl', r.node = some decl' → decl'.stmtCount ≤ decl.stmtCount + (xs.length - r.rest.length) := by
  induction m generalizing xs decl r with
  | zero => cases hr
  | succ m ih =>
    by_cases hclose : kindOf xs = .rbrace
    · rw [members, kind_bind_eq, hclose] at hr
      cases hr
      exact ⟨Nat.le_refl _, Nat.zero_le _, fun decl' h => by cases h; omega⟩
    by_cases heof : kindOf xs = .eof
    · rw [members, kind_bind_eq, heof] at hr
      cases hr
      exact ⟨Nat.le_refl _, by show 1 ≤ _; omega, fun _ h => by cases h⟩
    · have hpos := length_pos_of_kindOf heof
      rw [members_of_member hclose heof] at hr
      have hmember : Thrifty 2 (fun decl' => decl'.stmtCount - decl.stmtCount) (member n expr block decl) xs :=
        member_thrifty hexpr hblock decl
      obtain ⟨errors, ys, hfirst, rfl⟩ | ⟨decl₁, errors, ys, r₂, hfirst, hbehind, rfl⟩ := bind_cases hr
      · obtain ⟨hlength, -, herrors⟩ := hmember _ hfirst
        exact ⟨hlength, by dsimp only at *; omega, fun _ h => by cases h⟩
      · rw [advance_bind_eq] at hbehind
        obtain ⟨hlength, hnode, -⟩ := hmember _ hfirst
        obtain ⟨herrors, hcount⟩ := hnode decl₁ rfl
        obtain ⟨hlength', herrors', hcount'⟩ := ih decl₁ hbehind
        have htail := ys.length_tail
        dsimp only at *
        rw [List.length_append]
        refine ⟨by omega, by omega, fun decl' h => ?_⟩
        have := hcount' decl' h
        omega

include hexpr hblock in
/-- The opening brace and the word before it pay for what the members leave on credit. -/
theorem classDecl_thrifty : Thrifty 0 ClassDecl.stmtCount (classDecl n expr block) xs := by
  refine .bind .name fun name ys _ => ?_
  intro r hr
  -- the opening brace and the word before it pay for what the members have on credit
  obtain ⟨errors, zs, hopen, rfl⟩ | ⟨_, errors, zs, r₁, hopen, hbehind, rfl⟩ := bind_cases hr
  · obtain ⟨hlength, -, herrors⟩ := Thrifty.expect _ hopen
    exact ⟨hlength, nofun, herrors⟩
  · by_cases hk : kindOf ys.tail = .lbrace
    · rw [expect_of_eq hk] at hopen
      cases hopen
      rw [advance_bind_eq] at hbehind
      have hpos : 0 < ys.tail.length := length_pos_of_kindOf (by rw [hk]; nofun)
      obtain ⟨hlength, herrors, hcount⟩ := members_cost hexpr hblock _ hbehind
      simp only [List.length_tail, List.nil_append] at *
      refine ⟨by omega, fun decl hdecl => ⟨by omega, ?_⟩, by omega⟩
      have := hcount decl hdecl
      simp only [ClassDecl.stmtCount, fieldsStmtCount, methodsStmtCount, initStmtCount] at this
      omega
    · rw [expect_of_ne hk] at hopen
      cases hopen

/-! ## Blocks and programs -/

include hexpr hblock in
/-- The forms of statements, each but for itself. -/
theorem statement_thrifty : Thrifty 1 (fun st => st.stmtCount - 1) (statement n expr block) xs := by
  refine .kind_bind (.peek_bind ?_)
  split
  · refine .bind_quiet (binding_thrifty hexpr) fun field ys => ⟨_, .pure _ ys, ?_⟩
    rw [Stmt.stmtCount]
    omega
  · exact returnStatement_thrifty hexpr
  · refine .credit (.bind_quiet (functionDecl_thrifty hblock) fun decl ys => ⟨_, .pure _ ys, ?_⟩) (Nat.zero_le 1)
    rw [Stmt.stmtCount]
    omega
  · refine .credit (.bind_quiet (classDecl_thrifty hexpr hblock) fun decl ys => ⟨_, .pure _ ys, ?_⟩) (Nat.zero_le 1)
    rw [Stmt.stmtCount]
    omega
  · exact expressionStatement_thrifty hexpr

include hexpr hblock in
/-- Each round of the loop pays for a statement and its errors with the tokens it passes, at least one. -/
theorem statements_cost {ends : TokenKind → Bool} (heof : ends .eof) {r : Reply (List Stmt)}
    (hr : statements n expr block ends m xs = some r) :
    r.rest.length ≤ xs.length ∧ r.errors.length ≤ 2 * (xs.length - r.rest.length) ∧
      ∀ body, r.node = some body → blockStmtCount body ≤ xs.length - r.rest.length := by
  induction m generalizing xs r with
  | zero => cases hr
  | succ m ih =>
    cases hends : ends (kindOf xs) with
    | true =>
      rw [statements_of_ends hends] at hr
      cases hr
      exact ⟨Nat.le_refl _, Nat.zero_le _, fun body h => by cases h; exact Nat.zero_le _⟩
    | false =>
      have hpos : 0 < xs.length := length_pos_of_kindOf fun h => by rw [h, heof] at hends; cases hends
      rw [statements_of_not_ends hends, Option.bind_eq_some_iff] at hr
      obtain ⟨first, hfirst, hr⟩ := hr
      obtain ⟨rest, hrest, rfl⟩ := Option.map_eq_some_iff.1 hr
      obtain ⟨hlength, hnode, herrors⟩ := statement_thrifty hexpr hblock _ hfirst
      obtain ⟨hlength', herrors', hcount'⟩ := ih hrest
      have htail := first.rest.length_tail
      dsimp only
      rw [List.length_append]
      refine ⟨by omega, by omega, fun body h => ?_⟩
      obtain ⟨body', hbody', rfl⟩ := Option.map_eq_some_iff.1 h
      have := hcount' body' hbody'
      rw [blockStmtCount_append]
      cases hst : first.node with
      | none =>
        rw [Option.toList_none, blockStmtCount]
        omega
      | some st =>
        obtain ⟨-, hcount⟩ := hnode st hst
        rw [Option.toList_some, blockStmtCount, blockStmtCount]
        dsimp only at hcount
        omega

include hexpr hblock in
/-- The opening brace pays for what the statements leave on credit. -/
theorem blockBody_thrifty (hx : xs ≠ []) : Thrifty 0 blockStmtCount (blockBody n expr block) xs := by
  have hpos := List.length_pos_iff.2 hx
  intro r hr
  rw [blockBody, advance_bind_eq] at hr
  obtain ⟨errors, ys, hbody, rfl⟩ | ⟨body, errors, ys, r₁, hbody, hend, rfl⟩ := bind_cases hr
  · obtain ⟨_, ⟨⟩⟩ := statements_node hbody
  · obtain ⟨hlength, herrors, hcount⟩ := statements_cost hexpr hblock rfl hbody
    have htail := xs.length_tail
    have := hcount body rfl
    rw [kind_bind_eq] at hend
    -- a missing brace is paid for with the one that opens the block
    have hend : r₁.node = some body ∧ r₁.errors.length ≤ 1 ∧ r₁.rest = ys := by
      split at hend <;> cases hend
      · exact ⟨rfl, Nat.le_refl _, rfl⟩
      · exact ⟨rfl, Nat.zero_le _, rfl⟩
    obtain ⟨hnode, herrors', hrest⟩ := hend
    dsimp only at *
    rw [List.length_append, hrest]
    refine ⟨by omega, fun b hb => ?_, by omega⟩
    obtain rfl := Option.some.inj (hnode.symm.trans hb)
    omega

end Handlers

/-! ## The whole parser -/

/-- Expressions and blocks of all depths, by induction on the bound on the depth. -/
theorem nested_thrifty (n : Nat) : (∀ p xs, Thrifty 0 Expr.stmtCount (expr n p) xs) ∧
    ∀ xs, xs ≠ [] → Thrifty 0 blockStmtCount (block n) xs := by
  induction n with
  | zero => exact ⟨fun _ _ => .exhausted, fun _ _ => .exhausted⟩
  | succ n ih =>
    obtain ⟨hexpr, hblock⟩ := ih
    exact ⟨fun p _ => expression_thrifty hexpr hblock p, fun _ h => blockBody_thrifty hexpr hblock h⟩

end Parse

/-- Every list of tokens is read up to the end of the source, in the same way under all bounds that are large enough,
and leaves a program with at most as many statements as there are tokens and at most twice as many errors. -/
theorem parse_cost (tokens : List Token) :
    (∃ rest, Step.kindOf rest = .eof ∧ ∀ n, tokens.length < n →
      Parse.program n tokens = some ⟨some (parse tokens).program, (parse tokens).errors, rest⟩) ∧
    blockStmtCount (parse tokens).program ≤ tokens.length ∧ (parse tokens).errors.length ≤ 2 * tokens.length := by
  have hn := Nat.lt_succ_self tokens.length
  obtain ⟨⟨node, errors, rest⟩, hr, -⟩ := Parse.program_settles hn
  obtain ⟨body, hbody⟩ := Parse.statements_node hr
  obtain rfl : node = some body := hbody
  obtain ⟨hexpr, hblock⟩ := Parse.nested_thrifty (tokens.length + 1)
  obtain ⟨-, herrors, hcount⟩ := Parse.statements_cost hexpr hblock rfl hr
  obtain ⟨_, -, -, hends⟩ := Parse.program_lockstep Parse.companion_eq (fun h => h ▸ rfl) (Nat.le_refl _) rfl _ hr
  have hparse : parse tokens = ⟨body, errors⟩ := parse_of_reply hn hr
  rw [hparse]
  refine ⟨⟨rest, by simpa using hends body rfl, fun n hlt => ?_⟩, ?_, ?_⟩
  · exact (Parse.program_rounds hn hlt).trans hr
  · exact Nat.le_trans (hcount body rfl) (Nat.sub_le _ _)
  · exact Nat.le_trans herrors (Nat.mul_le_mul_left 2 (Nat.sub_le _ _))

/-- A second constructor takes two errors for each token. -/
example : ((parse (scan "class C \x7b Init() \x7b \x7d Init Init Init \x7d").dropLast).errors.length,
    (parse (scan "class C \x7b Init() \x7b \x7d Init Init Init \x7d").dropLast).program.length) = (6, 1) := by
  decide +kernel

end Pron
