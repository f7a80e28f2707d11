import Mathlib.Data.List.Forall2
import Pron.Proofs.Syntax.Settles

/-!
# Two readings side by side

Handlers look at the kinds and the literals of tokens, and only at the current token and the next one. So two lists of
tokens on which they see the same are read alike: with the same node, the same errors and again such lists as rests
(`Step.Lockstep`). What it takes for that is said by `Step.Companion`; a handler that stands on a semicolon never looks
behind it for anything but a second semicolon, unless it is inside of braces.

The bounds of the two readings may differ, as long as the first one is not reached. Three facts are instances of one
induction over the handlers: a larger bound changes nothing (`Parse.program_rounds`), the lines of tokens do not matter
(`parse_congr`), and what stands behind a semicolon does not matter to what stands before it (used for the recovery
from errors).
-/

namespace Pron

namespace Step

variable {α β : Type} {p q : Step α} {f g : α → Step β} {k : TokenKind} {xs ys : List Token} {a : α}

/-- The literal of the first token. -/
def literalOf (tokens : List Token) : String := (tokens.head?.map Token.literal).getD ""

/-- Lists of tokens that look the same to handlers, wherever they get to. -/
structure Companion (R : List Token → List Token → Prop) : Prop where
  kind {xs ys : List Token} : R xs ys → kindOf ys = kindOf xs
  literal {xs ys : List Token} : R xs ys → literalOf ys = literalOf xs
  tail {xs ys : List Token} : R xs ys → kindOf xs ≠ .semicolon → R xs.tail ys.tail
  semicolon {xs ys : List Token} : R xs ys → kindOf xs = .semicolon →
    R xs.tail ys.tail ∨ kindOf xs.tail ≠ .semicolon ∧ kindOf ys.tail ≠ .semicolon
  brace {xs ys : List Token} : R xs ys → kindOf xs = .lbrace → ∀ {us vs}, R us vs → R us.tail vs.tail

/-- What the first reading leaves, if its bound is not reached, is what the second leaves, and the rests look the same
again. A property holds where a node is left. -/
def Lockstep (R : List Token → List Token → Prop) (p q : Step α) (xs ys : List Token)
    (Q : α → List Token → Prop) : Prop :=
  ∀ r, p xs = some r → ∃ zs, q ys = some ⟨r.node, r.errors, zs⟩ ∧ R r.rest zs ∧ ∀ a, r.node = some a → Q a r.rest

/-- The current token is no semicolon. -/
def Clear (_ : α) (xs : List Token) : Prop := kindOf xs ≠ .semicolon

/-- Nothing is asked. -/
def Any (_ : α) (_ : List Token) : Prop := True

namespace Lockstep

variable {R : List Token → List Token → Prop} {Q : α → List Token → Prop} {Q' : β → List Token → Prop}

/-- A node without a step, from lists that look the same. -/
theorem pure (h : R xs ys) (hQ : Q a xs) : Lockstep R (Pure.pure a) (Pure.pure a) xs ys Q := by
  rintro _ ⟨⟩
  exact ⟨ys, rfl, h, fun _ ha => Option.some.inj ha ▸ hQ⟩

/-- Step after step: after the same node the rests look the same again. -/
theorem bind (hp : Lockstep R p q xs ys Q)
    (hf : ∀ a xs' ys', R xs' ys' → Q a xs' → Lockstep R (f a) (g a) xs' ys' Q') :
    Lockstep R (p >>= f) (q >>= g) xs ys Q' := by
  intro r hr
  obtain ⟨errors, xs', hpx, rfl⟩ | ⟨a, errors, xs', r', hpx, hfx, rfl⟩ := bind_cases hr
  · obtain ⟨zs, hq, hR, -⟩ := hp _ hpx
    exact ⟨zs, by rw [bind_eq, hq], hR, nofun⟩
  · obtain ⟨ys', hq, hR, hQ⟩ := hp _ hpx
    obtain ⟨zs, hg, hR', hQ'⟩ := hf a xs' ys' hR (hQ a rfl) r' hfx
    refine ⟨zs, ?_, hR', hQ'⟩
    rw [bind_eq, hq]
    dsimp only
    rw [hg]

/-- Nothing is said of a reading whose bound is reached. -/
theorem exhausted : Lockstep R Step.exhausted q xs ys Q := nofun

/-- The same error, and no node. -/
theorem report_fail (e : SyntaxError) (h : R xs ys) :
    Lockstep R (do report e; Step.fail) (do report e; Step.fail) xs ys Q := by
  rintro _ ⟨⟩
  exact ⟨ys, rfl, h, nofun⟩

/-- Both begin with steps that leave the same. -/
theorem bind_done {errors : List SyntaxError} {xs' ys' : List Token} (hp : p xs = some ⟨some a, errors, xs'⟩)
    (hq : q ys = some ⟨some a, errors, ys'⟩) (hf : Lockstep R (f a) (g a) xs' ys' Q') :
    Lockstep R (p >>= f) (q >>= g) xs ys Q' := by
  intro r hr
  obtain ⟨_, _, hp', -⟩ | ⟨_, _, _, r', hp', hfx, rfl⟩ := bind_cases hr
  · rw [hp] at hp'
    cases hp'
  · rw [hp] at hp'
    cases hp'
    obtain ⟨zs, hg, hR, hQ⟩ := hf r' hfx
    refine ⟨zs, ?_, hR, hQ⟩
    rw [bind_eq, hq]
    dsimp only
    rw [hg]

/-- The same error, and what follows. -/
theorem report_bind {e : SyntaxError} {f g : Unit → Step β} (hf : Lockstep R (f ()) (g ()) xs ys Q') :
    Lockstep R (report e >>= f) (report e >>= g) xs ys Q' := bind_done rfl rfl hf

/-- An attempt goes on from the rest whether it has failed or not. -/
theorem attempt_bind {f g : Option α → Step β} (hp : Lockstep R p q xs ys Q)
    (hf : ∀ node xs' ys', R xs' ys' → Lockstep R (f node) (g node) xs' ys' Q') :
    Lockstep R (attempt p >>= f) (attempt q >>= g) xs ys Q' := by
  refine bind (Q := Any) ?_ fun node xs' ys' h _ => hf node xs' ys' h
  intro r hr
  obtain ⟨reply, hreply, rfl⟩ := Option.map_eq_some_iff.1 hr
  obtain ⟨zs, hq, hR, -⟩ := hp reply hreply
  exact ⟨zs, by rw [attempt, hq]; rfl, hR, fun _ _ => trivial⟩

section Looking

variable (hR : Companion R) (h : R xs ys)

include hR h

/-- What follows is asked for the kind of the token in front only, which is the same. -/
theorem kind_bind {f g : TokenKind → Step β} (hf : Lockstep R (f (kindOf xs)) (g (kindOf xs)) xs ys Q') :
    Lockstep R (kind >>= f) (kind >>= g) xs ys Q' :=
  bind_done (q := kind) rfl (by rw [kind, hR.kind h]) hf

/-- What follows is asked for the text of the token in front only, which is the same. -/
theorem literal_bind {f g : String → Step β}
    (hf : Lockstep R (f (literalOf xs)) (g (literalOf xs)) xs ys Q') :
    Lockstep R (literal >>= f) (literal >>= g) xs ys Q' := by
  refine bind_done (q := literal) rfl ?_ hf
  show some (⟨some (literalOf ys), [], ys⟩ : Reply String) = _
  rw [hR.literal h]
  rfl

variable (hclear : kindOf xs ≠ .semicolon)

include hclear

/-- Behind a token that is no semicolon the next one has the same kind. -/
theorem peek_bind {f g : TokenKind → Step β} (hf : Lockstep R (f (kindOf xs.tail)) (g (kindOf xs.tail)) xs ys Q') :
    Lockstep R (peek >>= f) (peek >>= g) xs ys Q' :=
  bind_done (q := peek) rfl (by rw [peek, hR.kind (hR.tail h hclear)]) hf

/-- Lists that look the same do so behind a token that is no semicolon. -/
theorem advance_bind {f g : Unit → Step β} (hf : R xs.tail ys.tail → Lockstep R (f ()) (g ()) xs.tail ys.tail Q') :
    Lockstep R (advance >>= f) (advance >>= g) xs ys Q' :=
  bind_done (q := advance) rfl rfl (hf (hR.tail h hclear))

/-- Either both lists have the token that was asked for, or both report the same one instead. -/
theorem expect (k : TokenKind) : Lockstep R (expect k) (Step.expect k) xs ys fun _ zs => kindOf zs = k := by
  have hkind := hR.kind (hR.tail h hclear)
  by_cases hk : kindOf xs.tail = k
  · rintro _ hr
    rw [expect_of_eq hk] at hr
    cases hr
    exact ⟨ys.tail, expect_of_eq (hkind.trans hk), hR.tail h hclear, fun _ _ => hk⟩
  · rintro _ hr
    rw [expect_of_ne hk] at hr
    cases hr
    exact ⟨ys, by rw [expect_of_ne (hkind ▸ hk), hkind], h, nofun⟩

theorem expect_bind {f g : Unit → Step β}
    (hf : ∀ xs' ys', R xs' ys' → kindOf xs' = k → Lockstep R (f ()) (g ()) xs' ys' Q') :
    Lockstep R (Step.expect k >>= f) (Step.expect k >>= g) xs ys Q' :=
  (expect hR h hclear k).bind fun _ xs' ys' h' hk => hf xs' ys' h' hk

/-- The same name is taken, and no semicolon comes to stand in front. -/
theorem name : Lockstep R name name xs ys Clear :=
  expect_bind hR h hclear fun xs' ys' h' hk => literal_bind hR h' (.pure h' (by rw [Clear, hk]; nofun))

end Looking

/-- At a semicolon, only a semicolon behind it is looked for. -/
theorem passSemicolon_bind {f g : Unit → Step β} (hR : Companion R) (h : R xs ys)
    (hf : ∀ xs' ys', R xs' ys' → Lockstep R (f ()) (g ()) xs' ys' Q') :
    Lockstep R (passSemicolon >>= f) (passSemicolon >>= g) xs ys Q' := by
  have hpass (htail : R xs.tail ys.tail) : Lockstep R passSemicolon passSemicolon xs ys Any := by
    refine bind_done (p := peek) (q := peek) rfl (by rw [peek, hR.kind htail]) ?_
    split
    · rintro _ ⟨⟩
      exact ⟨ys.tail, rfl, htail, fun _ _ => trivial⟩
    · exact .pure h trivial
  have hstay (hx : kindOf xs.tail ≠ .semicolon) (hy : kindOf ys.tail ≠ .semicolon) :
      Lockstep R passSemicolon passSemicolon xs ys Any := by
    rintro _ hr
    have hr' : passSemicolon xs = some ⟨some (), [], xs⟩ := by
      simp only [passSemicolon, bind_eq, peek, hx, if_false]
      rfl
    rw [hr'] at hr
    cases hr
    refine ⟨ys, ?_, h, fun _ _ => trivial⟩
    simp only [passSemicolon, bind_eq, peek, hy, if_false]
    rfl
  have hboth : Lockstep R passSemicolon passSemicolon xs ys Any := by
    by_cases hk : kindOf xs = .semicolon
    · rcases hR.semicolon h hk with htail | ⟨hx, hy⟩
      · exact hpass htail
      · exact hstay hx hy
    · exact hpass (hR.tail h hk)
  exact hboth.bind fun _ xs' ys' h' _ => hf xs' ys' h'

end Lockstep

end Step

namespace Parse

open Step

section Handlers

variable {R : List Token → List Token → Prop} (hR : Companion R) {n n' : Nat} (hn : n ≤ n')
  {expr expr' : Precedence → Step Expr} {block block' : Step (List Stmt)}
  (hexpr : ∀ p xs ys, R xs ys → Lockstep R (expr p) (expr' p) xs ys Clear)
  (hblock : ∀ xs ys, R xs ys → kindOf xs = .lbrace → Lockstep R block block' xs ys Clear)
  {α : Type} {xs ys : List Token}

/-! ## Lists -/

section Lists

variable {item item' : Step α} (h : R xs ys) (hclear : kindOf xs ≠ .semicolon)
  (hitem : ∀ xs ys, R xs ys → kindOf xs ≠ .semicolon → Lockstep R item item' xs ys Clear)

include hR hitem

/-- Commas and items side by side; the bounds may differ. -/
theorem moreItems_lockstep {m m' : Nat} (hm : m ≤ m') (h : R xs ys) (hclear : kindOf xs ≠ .semicolon) :
    Lockstep R (moreItems item m) (moreItems item' m') xs ys Clear := by
  induction m generalizing m' xs ys with
  | zero => exact .exhausted
  | succ m ih =>
    obtain ⟨m', rfl⟩ := Nat.exists_eq_add_of_lt hm
    refine .peek_bind hR h hclear ?_
    split
    · next hcomma =>
      refine .advance_bind hR h hclear fun h₁ => ?_
      refine (hitem _ _ h₁ (by rw [hcomma]; nofun)).bind fun first _ _ h₂ hclear₂ => ?_
      exact (ih (by omega) h₂ hclear₂).bind fun rest _ _ h₃ hclear₃ => .pure h₃ hclear₃
    · exact .pure h hclear

include hn h hclear in
/-- Lists are empty on both sides or on neither. -/
theorem items_lockstep (close : TokenKind) (hclose : close ≠ .semicolon) :
    Lockstep R (items n close item) (items n' close item') xs ys Clear := by
  refine .peek_bind hR h hclear ?_
  split
  · next hk => exact .advance_bind hR h hclear fun h₁ => .pure h₁ (by rw [Clear, hk]; exact hclose)
  · refine (hitem _ _ h hclear).bind fun first _ _ h₁ hclear₁ => ?_
    refine (moreItems_lockstep hR hitem hn h₁ hclear₁).bind fun rest _ _ h₂ hclear₂ => ?_
    exact .expect_bind hR h₂ hclear₂ fun _ _ h₃ hk => .pure h₃ (by rw [Clear, hk]; exact hclose)

end Lists

/-! ## Expressions -/

section Expressions

variable (h : R xs ys)

include hR hexpr h

omit hR in
/-- Where an expression is missing it is so on both sides. -/
theorem exprOrNull_lockstep : Lockstep R (exprOrNull expr) (exprOrNull expr') xs ys Any :=
  .attempt_bind (hexpr _ _ _ h) fun _ _ _ h₁ => .pure h₁ trivial

variable (hclear : kindOf xs ≠ .semicolon)

include hclear

include hn in
theorem arguments_lockstep (close : TokenKind) (hclose : close ≠ .semicolon) :
    Lockstep R (arguments n expr close) (arguments n' expr' close) xs ys Clear :=
  items_lockstep hR hn h hclear
    (fun _ _ h₁ hclear₁ => .advance_bind hR h₁ hclear₁ fun h₂ => hexpr _ _ _ h₂) close hclose

omit hexpr in
include hn in
/-- Names between commas side by side. -/
theorem parameters_lockstep : Lockstep R (parameters n) (parameters n') xs ys Clear :=
  .expect_bind hR h hclear fun _ _ h₁ hk =>
    items_lockstep hR hn h₁ (by rw [hk]; nofun) (fun _ _ h₂ hclear₂ => .name hR h₂ hclear₂) .rparen nofun

omit hexpr in
include hblock in
/-- A block is read behind a brace, which is no semicolon. -/
theorem bracedBlock_lockstep : Lockstep R (bracedBlock block) (bracedBlock block') xs ys Clear :=
  .expect_bind hR h hclear fun _ _ h₁ hk => hblock _ _ h₁ hk

omit hexpr in
include hn hblock in
theorem functionLit_lockstep : Lockstep R (functionLit n block) (functionLit n' block') xs ys Clear := by
  refine (parameters_lockstep hR hn h hclear).bind fun names _ _ h₁ hclear₁ => ?_
  exact (bracedBlock_lockstep hR hblock h₁ hclear₁).bind fun _ _ _ h₂ hclear₂ => .pure h₂ hclear₂

include hn in
/-- The token behind the name chooses the same form on both sides. -/
theorem nameForm_lockstep : Lockstep R (nameForm n expr) (nameForm n' expr') xs ys Clear := by
  refine .literal_bind hR h (.peek_bind hR h hclear ?_)
  generalize hk : kindOf xs.tail = k
  have hstep {e : Expr} (hk : kindOf xs.tail ≠ .semicolon) : Lockstep R (do advance; return e) (do advance; return e)
      xs ys Clear := .advance_bind hR h hclear fun h₁ => .pure h₁ hk
  cases k with
  | dot =>
    refine .advance_bind hR h hclear fun h₁ => ?_
    refine (Lockstep.name hR h₁ (by rw [hk]; nofun)).bind fun method _ _ h₂ hclear₂ => ?_
    refine .expect_bind hR h₂ hclear₂ fun _ _ h₃ hk₃ => ?_
    refine (arguments_lockstep hR hn hexpr h₃ (by rw [hk₃]; nofun) .rparen nofun).bind fun _ _ _ h₄ hclear₄ => ?_
    exact .pure h₄ hclear₄
  | increment | decrement => exact hstep (by rw [hk]; nofun)
  | _ => exact .pure h hclear

omit hexpr in
theorem thisForm_lockstep : Lockstep R thisForm thisForm xs ys Clear :=
  .expect_bind hR h hclear fun _ _ h₁ hk =>
    (Lockstep.name hR h₁ (by rw [hk]; nofun)).bind fun _ _ _ h₂ hclear₂ => .pure h₂ hclear₂

omit hexpr in
/-- The same digits are in range or are not. -/
theorem integerForm_lockstep : Lockstep R integerForm integerForm xs ys Clear := by
  refine .literal_bind hR h ?_
  split
  · exact .pure h hclear
  · exact .report_fail _ h

omit hexpr in
/-- The same text is read as a number or is not. -/
theorem realForm_lockstep : Lockstep R realForm realForm xs ys Clear := by
  refine .literal_bind hR h ?_
  split
  · exact .pure h hclear
  · exact .report_fail _ h

theorem unaryForm_lockstep (op : UnaryOp) : Lockstep R (unaryForm expr op) (unaryForm expr' op) xs ys Clear :=
  .advance_bind hR h hclear fun h₁ => (hexpr _ _ _ h₁).bind fun _ _ _ h₂ hclear₂ => .pure h₂ hclear₂

theorem groupForm_lockstep : Lockstep R (groupForm expr) (groupForm expr') xs ys Clear := by
  refine .advance_bind hR h hclear fun h₁ => (hexpr _ _ _ h₁).bind fun _ _ _ h₂ hclear₂ => ?_
  exact .expect_bind hR h₂ hclear₂ fun _ _ h₃ hk => .pure h₃ (by rw [Clear, hk]; nofun)

include hblock in
theorem branch_lockstep : Lockstep R (branch expr block) (branch expr' block') xs ys Clear := by
  refine .expect_bind hR h hclear fun _ _ h₁ hk₁ => ?_
  refine .advance_bind hR h₁ (by rw [hk₁]; nofun) fun h₂ => (hexpr _ _ _ h₂).bind fun _ _ _ h₃ hclear₃ => ?_
  refine .expect_bind hR h₃ hclear₃ fun _ _ h₄ hk₄ => ?_
  refine (bracedBlock_lockstep hR hblock h₄ (by rw [hk₄]; nofun)).bind fun _ _ _ h₅ hclear₅ => ?_
  exact .pure h₅ hclear₅

include hblock in
/-- Further branches side by side; the bounds may differ. -/
theorem moreBranches_lockstep {m m' : Nat} (hm : m ≤ m') :
    Lockstep R (moreBranches expr block m) (moreBranches expr' block' m') xs ys Clear := by
  induction m generalizing m' xs ys with
  | zero => exact .exhausted
  | succ m ih =>
    obtain ⟨m', rfl⟩ := Nat.exists_eq_add_of_lt hm
    refine .peek_bind hR h hclear ?_
    split
    · next helif =>
      refine .advance_bind hR h hclear fun h₁ => ?_
      refine (branch_lockstep hR hexpr hblock h₁ (by rw [helif]; nofun)).bind fun _ _ _ h₂ hclear₂ => ?_
      exact (ih h₂ hclear₂ (by omega)).bind fun _ _ _ h₃ hclear₃ => .pure h₃ hclear₃
    · exact .pure h hclear

include hn hblock in
/-- There is a last block on both sides or on neither. -/
theorem conditionalForm_lockstep :
    Lockstep R (conditionalForm n expr block) (conditionalForm n' expr' block') xs ys Clear := by
  refine (branch_lockstep hR hexpr hblock h hclear).bind fun first _ _ h₁ hclear₁ => ?_
  refine (moreBranches_lockstep hR hexpr hblock h₁ hclear₁ hn).bind fun more us vs h₂ hclear₂ => ?_
  refine .peek_bind hR h₂ hclear₂ ?_
  split
  · next helse =>
    refine .advance_bind hR h₂ hclear₂ fun h₃ => ?_
    refine (bracedBlock_lockstep hR hblock h₃ (by rw [helse]; nofun)).bind fun _ _ _ h₄ hclear₄ => ?_
    exact .pure h₄ hclear₄
  · exact .pure h₂ hclear₂

/-- Pairs side by side; the bounds may differ. -/
theorem hashPairs_lockstep {m m' : Nat} (hm : m ≤ m') :
    Lockstep R (hashPairs expr m) (hashPairs expr' m') xs ys Clear := by
  induction m generalizing m' xs ys with
  | zero => exact .exhausted
  | succ m ih =>
    obtain ⟨m', rfl⟩ := Nat.exists_eq_add_of_lt hm
    refine .peek_bind hR h hclear ?_
    split
    · exact .pure h hclear
    refine .advance_bind hR h hclear fun h₁ => (hexpr _ _ _ h₁).bind fun key _ _ h₂ hclear₂ => ?_
    refine .expect_bind hR h₂ hclear₂ fun _ _ h₃ hcolon => .advance_bind hR h₃ (by rw [hcolon]; nofun) fun h₄ => ?_
    refine (hexpr _ _ _ h₄).bind fun value us vs h₅ hclear₅ => .peek_bind hR h₅ hclear₅ ?_
    have hrest {us vs : List Token} (h₆ : R us vs) (hclear₆ : kindOf us ≠ .semicolon) : Lockstep R
        (do
          let rest ← hashPairs expr m
          return { key, value } :: rest)
        (do
          let rest ← hashPairs expr' (m + m')
          return { key, value } :: rest) us vs Clear :=
      (ih h₆ hclear₆ (by omega)).bind fun _ _ _ h₇ hclear₇ => .pure h₇ hclear₇
    split
    · exact .expect_bind hR h₅ hclear₅ fun _ _ h₆ hcomma => hrest h₆ (by rw [hcomma]; nofun)
    · exact hrest h₅ hclear₅

include hn in
theorem hashForm_lockstep : Lockstep R (hashForm n expr) (hashForm n' expr') xs ys Clear :=
  (hashPairs_lockstep hR hexpr h hclear hn).bind fun _ _ _ h₁ hclear₁ =>
    .expect_bind hR h₁ hclear₁ fun _ _ h₂ hk => .pure h₂ (by rw [Clear, hk]; nofun)

include hblock in
/-- The token behind the name chooses the same kind of loop on both sides. -/
theorem loopForm_lockstep : Lockstep R (loopForm expr block) (loopForm expr' block') xs ys Clear := by
  refine .expect_bind hR h hclear fun _ _ h₁ hk₁ => ?_
  refine (Lockstep.name hR h₁ (by rw [hk₁]; nofun)).bind fun x us vs h₂ hclear₂ => .peek_bind hR h₂ hclear₂ ?_
  generalize hk : kindOf us.tail = k
  cases k with
  | kwFrom =>
    refine .advance_bind hR h₂ hclear₂ fun h₃ => .advance_bind hR h₃ (by rw [hk]; nofun) fun h₄ => ?_
    refine (hexpr _ _ _ h₄).bind fun start _ _ h₅ hclear₅ => .expect_bind hR h₅ hclear₅ fun _ _ h₆ hk₆ => ?_
    refine .advance_bind hR h₆ (by rw [hk₆]; nofun) fun h₇ => (hexpr _ _ _ h₇).bind fun stop _ _ h₈ hclear₈ => ?_
    refine .expect_bind hR h₈ hclear₈ fun _ _ h₉ hk₉ => ?_
    refine (bracedBlock_lockstep hR hblock h₉ (by rw [hk₉]; nofun)).bind fun _ _ _ h' hclear' => .pure h' hclear'
  | kwIn =>
    refine .advance_bind hR h₂ hclear₂ fun h₃ => ?_
    refine (Lockstep.name hR h₃ (by rw [hk]; nofun)).bind fun _ _ _ h₄ hclear₄ => ?_
    refine .expect_bind hR h₄ hclear₄ fun _ _ h₅ hk₅ => ?_
    refine (bracedBlock_lockstep hR hblock h₅ (by rw [hk₅]; nofun)).bind fun _ _ _ h' hclear' => .pure h' hclear'
  | _ => exact .report_fail _ h₂

include hn in
theorem newForm_lockstep : Lockstep R (newForm n expr) (newForm n' expr') xs ys Clear := by
  refine (Lockstep.name hR h hclear).bind fun className _ _ h₁ hclear₁ => .expect_bind hR h₁ hclear₁ fun _ _ h₂ hk => ?_
  refine (arguments_lockstep hR hn hexpr h₂ (by rw [hk]; nofun) .rparen nofun).bind fun _ _ _ h₃ hclear₃ => ?_
  exact .pure h₃ hclear₃

omit hclear in
include hn hblock in
/-- The token in front chooses the same form on both sides. -/
theorem operand_lockstep : Lockstep R (operand n expr block) (operand n' expr' block') xs ys Clear := by
  refine .kind_bind hR h ?_
  have hclear {k : TokenKind} (hk : kindOf xs = k) (hne : k ≠ .semicolon) : kindOf xs ≠ .semicolon := hk ▸ hne
  generalize hk : kindOf xs = k
  cases k with
  | ident => exact nameForm_lockstep hR hn hexpr h (hclear hk nofun)
  | kwThis => exact thisForm_lockstep hR h (hclear hk nofun)
  | int => exact integerForm_lockstep hR h (hclear hk nofun)
  | real => exact realForm_lockstep hR h (hclear hk nofun)
  | str => exact .literal_bind hR h (.pure h (hclear hk nofun))
  | kwTrue | kwFalse => exact .pure h (hclear hk nofun)
  | bang | minus => exact unaryForm_lockstep hR hexpr h (hclear hk nofun) _
  | lparen => exact groupForm_lockstep hR hexpr h (hclear hk nofun)
  | kwIf => exact conditionalForm_lockstep hR hn hexpr hblock h (hclear hk nofun)
  | kwFunc =>
    exact (functionLit_lockstep hR hn hblock h (hclear hk nofun)).bind fun _ _ _ h₁ hclear₁ => .pure h₁ hclear₁
  | lbracket =>
    exact (arguments_lockstep hR hn hexpr h (hclear hk nofun) .rbracket nofun).bind
      fun _ _ _ h₁ hclear₁ => .pure h₁ hclear₁
  | lbrace => exact hashForm_lockstep hR hn hexpr h (hclear hk nofun)
  | kwFor => exact loopForm_lockstep hR hexpr hblock h (hclear hk nofun)
  | kwNew => exact newForm_lockstep hR hn hexpr h (hclear hk nofun)
  | _ => exact .report_fail _ h

include hn in
/-- The same operator, call or lookup is added on both sides. -/
theorem continueWith_lockstep (left : Expr) (c : Continuation) :
    Lockstep R (continueWith n expr left c) (continueWith n' expr' left c) xs ys Clear := by
  cases c with
  | operator op =>
    exact .advance_bind hR h hclear fun h₁ => (hexpr _ _ _ h₁).bind fun _ _ _ h₂ hclear₂ => .pure h₂ hclear₂
  | call =>
    exact (arguments_lockstep hR hn hexpr h hclear .rparen nofun).bind fun _ _ _ h₁ hclear₁ => .pure h₁ hclear₁
  | index =>
    refine .advance_bind hR h hclear fun h₁ => (hexpr _ _ _ h₁).bind fun _ _ _ h₂ hclear₂ => ?_
    exact .expect_bind hR h₂ hclear₂ fun _ _ h₃ hk => .pure h₃ (by rw [Clear, hk]; nofun)

include hn in
/-- Both sides go on, or both stop, since they see the same token. -/
theorem continuations_lockstep (p : Precedence) (left : Expr) {m m' : Nat} (hm : m ≤ m') :
    Lockstep R (continuations n expr p m left) (continuations n' expr' p m' left) xs ys Clear := by
  induction m generalizing m' xs ys left with
  | zero => exact .exhausted
  | succ m ih =>
    obtain ⟨m', rfl⟩ := Nat.exists_eq_add_of_lt hm
    refine .peek_bind hR h hclear ?_
    generalize hc : Continuation.ofKind? (kindOf xs.tail) = c
    cases c with
    | none => exact .pure h hclear
    | some c =>
      dsimp only
      split
      · refine .advance_bind hR h hclear fun h₁ => ?_
        have hclear₁ : kindOf xs.tail ≠ .semicolon := by
          intro hk
          rw [hk] at hc
          cases hc
        refine (continueWith_lockstep hR hn hexpr h₁ hclear₁ left c).bind fun longer _ _ h₂ hclear₂ => ?_
        exact ih h₂ hclear₂ longer (by omega)
      · exact .pure h hclear

omit hclear in
include hn hblock in
theorem expression_lockstep (p : Precedence) :
    Lockstep R (expression n expr block p) (expression n' expr' block' p) xs ys Clear :=
  (operand_lockstep hR hn hexpr hblock h).bind fun left _ _ h₁ hclear₁ =>
    continuations_lockstep hR hn hexpr h₁ hclear₁ p left hn

end Expressions

/-! ## Statements -/

section Statements

variable (h : R xs ys)

include hR h

section

variable (hclear : kindOf xs ≠ .semicolon)

include hclear

include hexpr in
/-- There is an equals sign on both sides or on neither, and so it is with the semicolon. -/
theorem binding_lockstep : Lockstep R (binding expr) (binding expr') xs ys Any := by
  refine (Lockstep.name hR h hclear).bind fun x us vs h₁ hclear₁ => .peek_bind hR h₁ hclear₁ ?_
  have hend {us vs : List Token} (value : Expr) (h₂ : R us vs) : Lockstep R
      (do
        passSemicolon
        return (x, value))
      (do
        passSemicolon
        return (x, value)) us vs Any := .passSemicolon_bind hR h₂ fun _ _ h₃ => .pure h₃ trivial
  dsimp only
  split
  · next hassign =>
    refine .advance_bind hR h₁ hclear₁ fun h₂ => .advance_bind hR h₂ (by rw [hassign]; nofun) fun h₃ => ?_
    exact (exprOrNull_lockstep hexpr h₃).bind fun value _ _ h₄ _ => hend value h₄
  · exact .bind_done rfl rfl (hend _ h₁)

include hn hblock in
theorem functionDecl_lockstep : Lockstep R (functionDecl n block) (functionDecl n' block') xs ys Any := by
  refine (Lockstep.name hR h hclear).bind fun name _ _ h₁ hclear₁ => ?_
  refine (functionLit_lockstep hR hn hblock h₁ hclear₁).bind fun literal _ _ h₂ _ => ?_
  exact .passSemicolon_bind hR h₂ fun _ _ h₃ => .pure h₃ trivial

include hexpr in
/-- There is a result on both sides or on neither. -/
theorem returnStatement_lockstep : Lockstep R (returnStatement expr) (returnStatement expr') xs ys Any := by
  have hend {us vs : List Token} (value : Expr) (h₁ : R us vs) : Lockstep R
      (do
        passSemicolon
        return Stmt.ret value)
      (do
        passSemicolon
        return Stmt.ret value) us vs Any := .passSemicolon_bind hR h₁ fun _ _ h₂ => .pure h₂ trivial
  have hvalue : Lockstep R
      (do
        advance
        let value ← exprOrNull expr
        passSemicolon
        return Stmt.ret value)
      (do
        advance
        let value ← exprOrNull expr'
        passSemicolon
        return Stmt.ret value) xs ys Any :=
    .advance_bind hR h hclear fun h₁ => (exprOrNull_lockstep hexpr h₁).bind fun value _ _ h₂ _ => hend value h₂
  refine .peek_bind hR h hclear ?_
  generalize kindOf xs.tail = k
  cases k with
  | semicolon | rbrace | eof => exact .bind_done rfl rfl (hend _ h)
  | _ => exact hvalue

end

include hexpr in
theorem expressionStatement_lockstep : Lockstep R (expressionStatement expr) (expressionStatement expr') xs ys Any :=
  (exprOrNull_lockstep hexpr h).bind fun _ _ _ h₁ _ => .passSemicolon_bind hR h₁ fun _ _ h₂ => .pure h₂ trivial

/-! ## Classes -/

section Free

variable (hfree : ∀ {us vs}, R us vs → R us.tail vs.tail)

/-- A parameter of a constructor is that of a field on both sides or on neither. -/
theorem constructorParam_lockstep : Lockstep R constructorParam constructorParam xs ys Clear := by
  refine .kind_bind hR h ?_
  generalize hk : kindOf xs = k
  cases k with
  | kwThis =>
    refine .expect_bind hR h (by rw [hk]; nofun) fun _ _ h₁ hdot => ?_
    exact (Lockstep.name hR h₁ (by rw [hdot]; nofun)).bind fun _ _ _ h₂ hclear₂ => .pure h₂ hclear₂
  | ident => exact .literal_bind hR h (.pure h (by rw [Clear, hk]; nofun))
  | _ => exact .report_fail _ h

include hn hblock in
theorem constructor_lockstep (hclear : kindOf xs ≠ .semicolon) :
    Lockstep R (constructor n block) (constructor n' block') xs ys Clear := by
  refine .expect_bind hR h hclear fun _ _ h₁ hk => ?_
  refine (items_lockstep hR hn h₁ (by rw [hk]; nofun) ?_ .rparen nofun).bind fun _ _ _ h₂ hclear₂ => ?_
  · exact fun _ _ h₂ hclear₂ => .advance_bind hR h₂ hclear₂ fun h₃ => constructorParam_lockstep hR h₃
  · exact (bracedBlock_lockstep hR hblock h₂ hclear₂).bind fun _ _ _ h₃ hclear₃ => .pure h₃ hclear₃

include hn hexpr hblock in
/-- The same member is added on both sides, or the same error reported. -/
theorem member_lockstep (decl : ClassDecl) :
    Lockstep R (member n expr block decl) (member n' expr' block' decl) xs ys Any := by
  refine .kind_bind hR h ?_
  generalize hk : kindOf xs = k
  cases k with
  | kwVar =>
    refine .attempt_bind (binding_lockstep hR hexpr h (by rw [hk]; nofun)) fun field _ _ h₁ => ?_
    cases field <;> exact .pure h₁ trivial
  | kwFunc =>
    refine .attempt_bind (functionDecl_lockstep hR hn hblock h (by rw [hk]; nofun)) fun method _ _ h₁ => ?_
    cases method <;> exact .pure h₁ trivial
  | kwInit =>
    dsimp only
    split
    case' isTrue => refine .report_bind ?_
    all_goals
      refine .attempt_bind (constructor_lockstep hR hn hblock h (by rw [hk]; nofun)) fun init _ _ h₁ => ?_
      cases init <;> exact .pure h₁ trivial
  | semicolon => exact .pure h trivial
  | _ => exact .report_bind (.pure h trivial)

include hn hexpr hblock hfree in
/-- Inside of braces the lists look the same behind semicolons too. -/
theorem members_lockstep (decl : ClassDecl) {m m' : Nat} (hm : m ≤ m') :
    Lockstep R (members n expr block m decl) (members n' expr' block' m' decl) xs ys Any := by
  induction m generalizing m' xs ys decl with
  | zero => exact .exhausted
  | succ m ih =>
    obtain ⟨m', rfl⟩ := Nat.exists_eq_add_of_lt hm
    refine .kind_bind hR h ?_
    have hround : Lockstep R
        (do
          let decl ← member n expr block decl
          advance
          members n expr block m decl)
        (do
          let decl ← member n' expr' block' decl
          advance
          members n' expr' block' (m + m') decl) xs ys Any :=
      (member_lockstep hR hn hexpr hblock h decl).bind fun decl _ _ h₁ _ =>
        .bind_done rfl rfl (ih (hfree h₁) decl (by omega))
    generalize kindOf xs = k
    cases k with
    | rbrace => exact .pure h trivial
    | eof => exact .report_fail _ h
    | _ => exact hround

end Free

include hn hexpr hblock in
/-- The brace in front of the members is what lets reading go on behind their semicolons. -/
theorem classDecl_lockstep (hclear : kindOf xs ≠ .semicolon) :
    Lockstep R (classDecl n expr block) (classDecl n' expr' block') xs ys Any := by
  refine (Lockstep.name hR h hclear).bind fun name _ _ h₁ hclear₁ => .expect_bind hR h₁ hclear₁ fun _ _ h₂ hk => ?_
  have hfree := @hR.brace _ _ h₂ hk
  exact .bind_done rfl rfl (members_lockstep hR hn hexpr hblock (hfree h₂) hfree _ hn)

/-! ## Blocks -/

omit hR h in
/-- At a semicolon no statement starts, whatever comes next. -/
theorem statement_semicolon (hk : kindOf xs = .semicolon) :
    statement n expr block xs = expressionStatement expr xs := by
  rw [statement, kind_bind_eq, peek_bind_eq, hk]

include hn hexpr hblock in
/-- The first two tokens choose the same form on both sides. -/
theorem statement_lockstep : Lockstep R (statement n expr block) (statement n' expr' block') xs ys Any := by
  by_cases hk : kindOf xs = .semicolon
  · intro r hr
    rw [statement_semicolon hk] at hr
    rw [statement_semicolon ((hR.kind h).trans hk)]
    exact expressionStatement_lockstep hR hexpr h r hr
  · refine .kind_bind hR h (.peek_bind hR h hk ?_)
    have hexpression := expressionStatement_lockstep hR hexpr h
    generalize kindOf xs = k
    cases k with
    | kwVar => exact (binding_lockstep hR hexpr h hk).bind fun _ _ _ h₁ _ => .pure h₁ trivial
    | kwReturn => exact returnStatement_lockstep hR hexpr h hk
    | kwFunc =>
      generalize kindOf xs.tail = k
      cases k with
      | ident => exact (functionDecl_lockstep hR hn hblock h hk).bind fun _ _ _ h₁ _ => .pure h₁ trivial
      | _ => exact hexpression
    | kwClass => exact (classDecl_lockstep hR hn hexpr hblock h hk).bind fun _ _ _ h₁ _ => .pure h₁ trivial
    | _ => exact hexpression

include hn hexpr hblock in
/-- Statements end on both sides or on neither. -/
theorem statements_lockstep (hfree : ∀ {us vs}, R us vs → R us.tail vs.tail) (ends : TokenKind → Bool) {m m' : Nat}
    (hm : m ≤ m') : Lockstep R (statements n expr block ends m) (statements n' expr' block' ends m') xs ys
      fun _ zs => ends (kindOf zs) := by
  induction m generalizing m' xs ys with
  | zero => exact .exhausted
  | succ m ih =>
    obtain ⟨m', rfl⟩ := Nat.exists_eq_add_of_lt hm
    refine .kind_bind hR h ?_
    split
    · next hends => exact .pure h hends
    · refine .attempt_bind (statement_lockstep hR hn hexpr hblock h) fun first _ _ h₁ => .bind_done rfl rfl ?_
      exact (ih (hfree h₁) (by omega)).bind fun rest _ _ h₂ hends => .pure h₂ hends

include hn hexpr hblock in
/-- A block begins with a brace, so reading goes on behind its semicolons. -/
theorem blockBody_lockstep (hk : kindOf xs = .lbrace) :
    Lockstep R (blockBody n expr block) (blockBody n' expr' block') xs ys Clear := by
  have hfree := @hR.brace _ _ h hk
  refine .bind_done rfl rfl ?_
  refine (statements_lockstep hR hn hexpr hblock (hfree h) hfree _ hn).bind fun body us _ h₁ hends => ?_
  have hclear : kindOf us ≠ .semicolon := by
    intro hk
    rw [hk] at hends
    cases hends
  refine .kind_bind hR h₁ ?_
  split
  · exact .report_bind (.pure h₁ hclear)
  · exact .pure h₁ hclear

end Statements

end Handlers

/-! ## The whole parser -/

variable {R : List Token → List Token → Prop} {n n' m : Nat} {xs ys : List Token}

/-- Expressions and blocks of all depths, by induction on the first bound. -/
theorem nested_lockstep (hR : Companion R) (hn : n ≤ m) :
    (∀ p xs ys, R xs ys → Lockstep R (expr n p) (expr m p) xs ys Clear) ∧
      ∀ xs ys, R xs ys → kindOf xs = .lbrace → Lockstep R (block n) (block m) xs ys Clear := by
  induction n generalizing m with
  | zero => exact ⟨fun _ _ _ _ => .exhausted, fun _ _ _ _ => .exhausted⟩
  | succ n ih =>
    obtain ⟨m, rfl⟩ := Nat.exists_eq_add_of_lt hn
    obtain ⟨hexpr, hblock⟩ := ih (m := n + m) (by omega)
    exact ⟨fun p _ _ h => expression_lockstep hR (by omega) hexpr hblock h p,
      fun _ _ h hk => blockBody_lockstep hR (by omega) hexpr hblock h hk⟩

/-- Lists of tokens that look the same everywhere have the same program. -/
theorem program_lockstep (hR : Companion R) (hfree : ∀ {us vs}, R us vs → R us.tail vs.tail) (hn : n ≤ m)
    (h : R xs ys) :
    Lockstep R (program n) (program m) xs ys fun _ zs => kindOf zs == .eof := by
  obtain ⟨hexpr, hblock⟩ := nested_lockstep hR hn
  exact statements_lockstep hR hn hexpr hblock h hfree _ hn

/-- A list of tokens and itself. -/
theorem companion_eq : Companion Eq where
  kind h := h ▸ rfl
  literal h := h ▸ rfl
  tail h _ := h ▸ rfl
  semicolon h _ := .inl (h ▸ rfl)
  brace _ _ _ _ h := h ▸ rfl

/-- Bounds that are not reached have no influence, neither the one on nesting nor the one on the rounds of the loop. -/
theorem statements_rounds (hx : xs.length < n) (hn : n ≤ n') (hm : n ≤ m) :
    statements n' (expr n') (block n') (fun k => k == .eof) m xs = program n xs := by
  obtain ⟨hexpr, hblock⟩ := nested_lockstep companion_eq hn
  obtain ⟨r, hr, -⟩ := program_settles hx
  obtain ⟨zs, hr', hrest, -⟩ :=
    statements_lockstep companion_eq hn hexpr hblock rfl (fun h => h ▸ rfl) _ hm r hr
  rw [hr, hr', ← hrest]

/-- A larger bound reads a whole program alike. -/
theorem program_rounds (hx : xs.length < n) (hn : n ≤ m) : program m xs = program n xs := statements_rounds hx hn hn

end Parse

/-- What the parser finds is what any reading finds whose bound is large enough. -/
theorem parse_of_reply {tokens : List Token} {n : Nat} {r : Reply (List Stmt)} (hn : tokens.length < n)
    (h : Parse.program n tokens = some r) : parse tokens = ⟨r.node.getD [], r.errors⟩ := by
  rw [Parse.program_rounds (Nat.lt_succ_self tokens.length) hn] at h
  rw [parse, h]
  cases r with
  | mk node _ _ => cases node <;> rfl

/-! ## Lines -/

/-- Tokens of one kind with one literal, on any lines. -/
def Token.Same (t u : Token) : Prop := u.kind = t.kind ∧ u.literal = t.literal

/-- Tokens that look the same do so behind the first one. -/
theorem Token.Same.tail {xs ys : List Token} (h : List.Forall₂ Token.Same xs ys) :
    List.Forall₂ Token.Same xs.tail ys.tail := by
  cases h with
  | nil => exact .nil
  | cons _ h => exact h

/-- Lists of such tokens. -/
theorem companion_same : Step.Companion (List.Forall₂ Token.Same) where
  kind h := by
    cases h with
    | nil => rfl
    | cons h => exact h.1
  literal h := by
    cases h with
    | nil => rfl
    | cons h => exact h.2
  tail h _ := Token.Same.tail h
  semicolon h _ := .inl (Token.Same.tail h)
  brace _ _ _ _ h := Token.Same.tail h

/-- Reading does not depend on lines. -/
theorem parse_congr {tokens tokens' : List Token} (h : List.Forall₂ Token.Same tokens tokens') :
    parse tokens' = parse tokens := by
  have hn := Nat.lt_succ_self tokens.length
  obtain ⟨r, hr, -⟩ := Parse.program_settles hn
  obtain ⟨zs, hr', -, -⟩ := Parse.program_lockstep companion_same Token.Same.tail (Nat.le_refl _) h r hr
  rw [parse_of_reply hn hr, parse_of_reply (h.length_eq ▸ hn) hr']

end Pron
