import Pron.Proofs.Syntax.Continued

/-!
# Precedence climbing

A chain of operands with operators between them is read as the only tree that groups them by their levels: on the left
of an operator stand operators that bind at least as strongly, on its right operators that bind more strongly
(`chain_gives`). An operand is whatever is read as an expression in which operators bind more strongly than any between
operands. What is read of it does not depend on the token behind it, as long as that is an operator or ends the
expression (`Grammar.Reads.followed`).
-/

namespace Pron

open Step (kindOf Gives Behind)

/-! ## Trees of operators -/

/-- Operands with operators between them, grouped. An operand is any expression, also one that is an operation. -/
inductive OperatorTree
  | operand (e : Expr)
  | node (op : BinaryOp) (left right : OperatorTree)

namespace OperatorTree

/-- The expression that a tree stands for. -/
def expr : OperatorTree → Expr
  | operand e => e
  | node op left right => .binary op left.expr right.expr

/-- The first operand. -/
def first : OperatorTree → Expr
  | operand e => e
  | node _ left _ => left.first

/-- The operators in order, each with the operand behind it. -/
def links : OperatorTree → List (BinaryOp × Expr)
  | operand _ => []
  | node op left right => left.links ++ (op, right.first) :: right.links

/-- The level of the operator at the root. -/
def level? : OperatorTree → Option Precedence
  | operand _ => none
  | node op _ _ => some op.precedence

/-- Operators group by their levels, those of one level from the left. -/
def Grouped : OperatorTree → Prop
  | operand _ => True
  | node op left right => (∀ p ∈ left.level?, op.precedence.rank ≤ p.rank) ∧ (∀ p ∈ right.level?, op.precedence < p) ∧
      left.Grouped ∧ right.Grouped

/-- A tree groups operands and operators given in order. -/
structure Groups (tree : OperatorTree) (e : Expr) (links : List (BinaryOp × Expr)) : Prop where
  grouped : tree.Grouped
  first : tree.first = e
  links : tree.links = links

variable {tree tree' : OperatorTree} {e : Expr} {links : List (BinaryOp × Expr)}

/-- No operator binds less strongly than the one at the root. -/
theorem Grouped.le_of_mem (h : tree.Grouped) {m : Nat} (hlevel : ∀ p ∈ tree.level?, m ≤ p.rank) :
    ∀ link ∈ tree.links, m ≤ link.1.precedence.rank := by
  induction tree generalizing m with
  | operand e => nofun
  | node op left right ihleft ihright =>
    obtain ⟨hleft, hright, hl, hr⟩ := h
    have hop : m ≤ op.precedence.rank := hlevel _ rfl
    intro link hlink
    rcases List.mem_append.1 hlink with hlink | hlink
    · exact ihleft hl (fun p hp => Nat.le_trans hop (hleft p hp)) link hlink
    rcases List.mem_cons.1 hlink with rfl | hlink
    · exact hop
    · exact ihright hr (fun p hp => Nat.le_trans hop (Nat.le_of_lt (hright p hp))) link hlink

/-- The operator at the root is the last one of the lowest level, so the same operators have the same one. -/
theorem links_append_cases {op op' : BinaryOp} {f f' : Expr} {as bs as' bs' : List (BinaryOp × Expr)}
    (h : as ++ (op, f) :: bs = as' ++ (op', f') :: bs')
    (has' : ∀ link ∈ as', op'.precedence.rank ≤ link.1.precedence.rank)
    (hbs : ∀ link ∈ bs, op.precedence.rank < link.1.precedence.rank) : as'.length ≤ as.length := by
  rcases List.append_eq_append_iff.1 h with ⟨cs, rfl, hcs⟩ | ⟨cs, rfl, -⟩
  · cases cs with
    | nil => simp
    | cons c cs =>
      obtain ⟨rfl, rfl⟩ := List.cons.inj hcs
      have hle := has' (op, f) (by simp)
      have hlt := hbs (op', f') (by simp)
      exact absurd hlt (Nat.not_lt.2 hle)
  · simp

theorem Groups.unique (h : tree.Groups e links) (h' : tree'.Groups e links) : tree = tree' := by
  induction tree generalizing tree' e links with
  | operand f =>
    cases tree' with
    | operand f' =>
      have hfirst : f = f' := h.first.trans h'.first.symm
      rw [hfirst]
    | node op' left' right' =>
      have hlength := congrArg List.length (h.links.trans h'.links.symm)
      simp [OperatorTree.links] at hlength
  | node op left right ihleft ihright =>
    cases tree' with
    | operand e' =>
      have hlength := congrArg List.length (h.links.trans h'.links.symm)
      simp [OperatorTree.links] at hlength
    | node op' left' right' =>
      obtain ⟨⟨hleft, hright, hl, hr⟩, hfirst, hlinks⟩ := h
      obtain ⟨⟨hleft', hright', hl', hr'⟩, hfirst', hlinks'⟩ := h'
      have hsame :
          left.links ++ (op, right.first) :: right.links = left'.links ++ (op', right'.first) :: right'.links :=
        hlinks.trans hlinks'.symm
      have hlength : left.links.length = left'.links.length := Nat.le_antisymm
        (links_append_cases hsame.symm (hl.le_of_mem hleft) (hr'.le_of_mem hright'))
        (links_append_cases hsame (hl'.le_of_mem hleft') (hr.le_of_mem hright))
      obtain ⟨hlinksLeft, hrest⟩ := List.append_inj hsame hlength
      obtain ⟨hroot, hlinksRight⟩ := List.cons.inj hrest
      obtain ⟨rfl, hfirstRight⟩ := Prod.mk.inj hroot
      rw [ihleft ⟨hl, rfl, rfl⟩ ⟨hl', hfirst'.trans hfirst.symm, hlinksLeft.symm⟩,
        ihright ⟨hr, rfl, rfl⟩ ⟨hr', hfirstRight.symm, hlinksRight.symm⟩]

end OperatorTree

namespace Grammar

/-! ## Other tokens behind an operand -/

section Followed

variable {rules : Rules} {k : TokenKind} {x : String} {es ts xs ys zs : List Token}

theorem behind_append : behind ys.length es (ts ++ ys) = ts ++ es := by
  simp [behind]

theorem behind_self : behind ys.length es ys = es := by
  simp [behind]

/-- What is read is empty, or the rest is shorter. -/
theorem Reads.eq_or_length_lt {phrase : Phrase} {tree : phrase.Tree} (h : Reads rules phrase xs tree ys) :
    ys = xs ∨ ys.length < xs.length := by
  obtain ⟨_, ⟨ts, rfl, -⟩, -⟩ := h.passes
  cases ts with
  | nil => exact .inl rfl
  | cons t ts =>
    right
    rw [List.cons_append, List.length_cons, List.length_append]
    omega

theorem Lit.followed (h : Lit k x xs ys) : Lit k x (Grammar.behind ys.length es xs) es := by
  obtain ⟨line, rfl⟩ := h
  exact ⟨line, (behind_cons (Nat.le_refl ys.length)).trans (congrArg _ behind_self)⟩

theorem Tok.followed (h : Tok k xs ys) : Tok k (Grammar.behind ys.length es xs) es := by
  obtain ⟨x, h⟩ := h
  exact ⟨x, h.followed⟩

/-- A part that is the last one, or has one more behind it. -/
theorem Reads.part_followed {phrase : Phrase} {tree : phrase.Tree} (h : Reads rules phrase xs tree zs)
    (hlast : Reads rules phrase (Grammar.behind zs.length es xs) tree es) (hzs : ys = zs ∨ ys.length < zs.length) :
    Reads rules phrase (Grammar.behind ys.length es xs) tree (Grammar.behind ys.length es zs) := by
  rcases hzs with rfl | hzs
  · rwa [behind_self]
  · exact h.behind hzs

/-- The phrases that an operand can end with. -/
def endsOperand : Phrase → Prop
  | .expression p | .chain p _ => p = .unary
  | .operand | .branch | .furtherBranches | .otherwise | .function | .block => True
  | _ => False

/-- Another token behind an operand changes nothing, if neither makes it longer. -/
theorem Reads.followed {phrase : Phrase} {tree : phrase.Tree} (h : Reads .greedy phrase xs tree ys)
    (hphrase : endsOperand phrase) (hes : followsOperand (kindOf es)) (hstops : Stops .unary es) :
    Reads .greedy phrase (Grammar.behind ys.length es xs) tree es := by
  have hkind {k : TokenKind} (hk : followsOperand k = Bool.false) : kindOf es ≠ k := by
    rintro rfl
    rw [hk] at hes
    cases hes
  induction h with
  -- expressions
  | expression h h' ih ih' => exact .expression (h.part_followed (ih trivial) h'.eq_or_length_lt) (ih' hphrase)
  | stop =>
    subst hphrase
    rw [behind_self]
    exact .stop fun _ => hstops
  | @operator p op _ _ _ _ _ _ _ _ _ hp =>
    -- no operator binds more strongly than one in front of an operand
    subst hphrase
    exact absurd (hp trivial) (by cases op <;> decide)
  | call hp hopen h hclose h' ih ih' =>
    have := h'.length_le
    exact .call hp (hopen.behind (by grind)) (h.behind (by grind)) (hclose.behind (by grind)) (ih' hphrase)
  | index hp hopen h hclose h' ih ih' =>
    have := h'.length_le
    exact .index hp (hopen.behind (by grind)) (h.behind (by grind)) (hclose.behind (by grind)) (ih' hphrase)
  -- operands
  | name hx => exact .name hx.followed fun _ => ⟨hkind rfl, hkind rfl, hkind rfl⟩
  | increment hx hk => exact .increment (hx.behind (by grind)) hk.followed
  | decrement hx hk => exact .decrement (hx.behind (by grind)) hk.followed
  | methodCall hobject hdot hmethod hopen h hclose =>
    exact .methodCall (hobject.behind (by grind)) (hdot.behind (by grind)) (hmethod.behind (by grind))
      (hopen.behind (by grind)) (h.behind (by grind)) hclose.followed
  | thisName hthis hdot hx => exact .thisName (hthis.behind (by grind)) (hdot.behind (by grind)) hx.followed
  | integer hx hn => exact .integer hx.followed hn
  | real hx hr => exact .real hx.followed hr
  | text hx => exact .text hx.followed
  | true hk => exact .true hk.followed
  | false hk => exact .false hk.followed
  | unary hop hk h ih => exact .unary hop (hk.behind (by grind)) (ih rfl)
  | group hopen h hclose => exact .group (hopen.behind (by grind)) (h.behind (by grind)) hclose.followed
  | conditional hif h h' h'' ih ih' ih'' =>
    have hlength := h''.length_le
    have hbranch := h'.eq_or_length_lt
    have hmore := h''.eq_or_length_lt
    have := h'.length_le
    refine .conditional (hif.behind (by grind)) (h.part_followed (ih trivial) ?_) (h'.part_followed (ih' trivial) hmore)
      (ih'' trivial)
    rcases hmore with rfl | hmore
    · exact hbranch
    · exact .inr (Nat.lt_of_lt_of_le hmore this)
  | function hfunc h ih => exact .function (hfunc.behind (by grind)) (ih trivial)
  | array hopen h hclose => exact .array (hopen.behind (by grind)) (h.behind (by grind)) hclose.followed
  | hash hopen h hclose => exact .hash (hopen.behind (by grind)) (h.behind (by grind)) hclose.followed
  | rangeFor hfor hopen hx hfrom h hto h' hclose h'' ih ih' ih'' =>
    exact .rangeFor (hfor.behind (by grind)) (hopen.behind (by grind)) (hx.behind (by grind)) (hfrom.behind (by grind))
      (h.behind (by grind)) (hto.behind (by grind)) (h'.behind (by grind)) (hclose.behind (by grind)) (ih'' trivial)
  | collectionFor hfor hopen hx hin hcollection hclose h ih =>
    exact .collectionFor (hfor.behind (by grind)) (hopen.behind (by grind)) (hx.behind (by grind))
      (hin.behind (by grind)) (hcollection.behind (by grind)) (hclose.behind (by grind)) (ih trivial)
  | new hnew hname hopen h hclose =>
    exact .new (hnew.behind (by grind)) (hname.behind (by grind)) (hopen.behind (by grind)) (h.behind (by grind))
      hclose.followed
  -- their parts
  | branch hopen h hclose h' ih ih' =>
    exact .branch (hopen.behind (by grind)) (h.behind (by grind)) (hclose.behind (by grind)) (ih' trivial)
  | lastBranch =>
    rw [behind_self]
    exact .lastBranch fun _ => hkind rfl
  | furtherBranch helif h h' ih ih' =>
    have := h'.length_le
    exact .furtherBranch (helif.behind (by grind)) (h.part_followed (ih trivial) h'.eq_or_length_lt) (ih' trivial)
  | noElse =>
    rw [behind_self]
    exact .noElse fun _ => hkind rfl
  | «else» helse h ih => exact .else (helse.behind (by grind)) (ih trivial)
  | functionLit hparameters h ih => exact .functionLit (hparameters.behind (h.length_lt rfl)) (ih trivial)
  | block hopen h hclose => exact .block (hopen.behind (by grind)) (h.behind (by grind)) hclose.followed
  -- the other phrases do not end an operand
  | _ => exact hphrase.elim

end Followed

/-! ## Climbing -/

section Climb

variable {op : BinaryOp} {p : Precedence} {e : Expr} {links : List (BinaryOp × Expr)} {ts xs ys zs : List Token}

theorem binary_lt_call (op : BinaryOp) : op.precedence < .call := by
  cases op <;> decide

/-- Calls and indices bind more strongly than operators, so what continues an operand is read at each level of those. -/
theorem Reads.chain_climbs {l e' : Expr} {ws : List Token} (hp : p < .call)
    (h : Reads .greedy (.chain .unary l) xs e ys) (h' : Reads .greedy (.chain p e) ys e' ws) :
    Reads .greedy (.chain p l) xs e' ws := by
  induction hn : xs.length using Nat.strongRecOn generalizing xs l with
  | ind n ih =>
    cases h with
    | stop => exact h'
    | @operator _ op _ _ _ _ _ _ _ _ _ hop => exact absurd (hop trivial) (by cases op <;> decide)
    | call _ hopen h hclose h₁ =>
      have := h.length_le
      exact .call (fun _ => hp) hopen h hclose (ih _ (by grind) h₁ rfl)
    | index _ hopen h hclose h₁ =>
      have := h.length_le
      exact .index (fun _ => Nat.lt_succ_of_lt hp) hopen h hclose (ih _ (by grind) h₁ rfl)

/-- An operand is the first one of an expression at each level of operators. -/
theorem Reads.climbs {e' : Expr} {ws : List Token} (hp : p < .call) (h : Reads .greedy (.expression .unary) xs e ys)
    (h' : Reads .greedy (.chain p e) ys e' ws) : Reads .greedy (.expression p) xs e' ws := by
  cases h with
  | expression h h₁ => exact .expression h (h₁.chain_climbs hp h')

/-- Operators behind an operand up to `zs`, each with the operand behind it. -/
inductive Linked (zs : List Token) : List Token → List (BinaryOp × Expr) → Prop
  | nil : Linked zs zs []
  | cons {op : BinaryOp} {k : TokenKind} {e : Expr} {links : List (BinaryOp × Expr)} {xs ys us : List Token} :
      binary? k = some op → Tok k xs ys → Reads .greedy (.expression .unary) ys e us → Linked zs us links →
      Linked zs xs ((op, e) :: links)

/-- Where operators bind no more strongly than `p`, nothing is read on. -/
theorem Linked.stops (h : Linked zs xs links) (hzs : Stops .lowest zs)
    (hlinks : ∀ link ∈ links.head?, ¬p < link.1.precedence) : Stops p xs := by
  cases h with
  | nil => exact fun c hc hlt => hzs c hc (Nat.lt_of_le_of_lt (Nat.zero_le _) hlt)
  | cons hop hk =>
    have hc := ofKind?_of_binary? hop
    rw [← hk.kindOf_eq] at hc
    exact (stops_iff hc).2 (hlinks _ rfl)

/-- What is read behind a tree that is grouped, where the next operator binds no more strongly than the one at its root.
The first operator that binds no more strongly than `p` ends it. By induction on the number of operators: one that
binds more strongly than `p` takes the operators behind it that bind more strongly than itself, and the tree so far with
what has been taken is what the next one finds on its left. -/
theorem Linked.climb {tree : OperatorTree} (h : Linked zs xs links) (hzs : Stops .lowest zs) (htree : tree.Grouped)
    (hnext : ∀ q ∈ tree.level?, ∀ link ∈ links.head?, link.1.precedence.rank ≤ q.rank) :
    ∃ longer used rest ys, Reads .greedy (.chain p tree.expr) xs longer.expr ys ∧ Linked zs ys rest ∧
      links = used ++ rest ∧ longer.Groups tree.first (tree.links ++ used) ∧
      (∀ link ∈ rest.head?, ¬p < link.1.precedence) ∧ (longer = tree ∨ ∀ q ∈ longer.level?, p < q) := by
  induction hn : links.length using Nat.strongRecOn generalizing xs links tree p with
  | ind n ih =>
    by_cases hp : ∀ link ∈ links.head?, ¬p < link.1.precedence
    · exact ⟨tree, [], links, xs, .stop fun _ => h.stops hzs hp, h, rfl, ⟨htree, rfl, by simp⟩, hp, .inl rfl⟩
    cases h with
    | nil => exact absurd nofun hp
    | @cons op k e links _ ys us hop hk he hlinks =>
      have hlt : p < op.precedence := by simpa using hp
      -- the operators on the right
      have hoperand : (OperatorTree.operand e).Grouped := trivial
      obtain ⟨right, used, rest, vs, hright, hrest, rfl, ⟨hrightGrouped, hrightFirst, hrightLinks⟩, hstop, hlevel⟩ :=
        ih links.length (by simp [← hn]) (p := op.precedence) hlinks hoperand nofun rfl
      have hlevel : ∀ q ∈ right.level?, op.precedence < q := by
        rcases hlevel with rfl | hlevel
        · nofun
        · exact hlevel
      -- the operators behind it
      have hnode : (OperatorTree.node op tree right).Grouped :=
        ⟨fun q hq => hnext q hq _ rfl, hlevel, htree, hrightGrouped⟩
      have hlength : rest.length < n := by
        rw [← hn, List.length_cons, List.length_append]
        omega
      obtain ⟨longer, used', rest', ws, hlonger, hrest', rfl, ⟨hgrouped, hfirst, hlinks'⟩, hstop', hlevel'⟩ :=
        ih rest.length hlength (p := p) hrest hnode
          (fun q hq link hlink => by cases hq; exact Nat.not_lt.1 (hstop link hlink)) rfl
      refine ⟨longer, (op, e) :: used ++ used', rest', ws, ?_, hrest', by simp, ⟨hgrouped, hfirst, ?_⟩, hstop', .inr ?_⟩
      · exact .operator hop (fun _ => hlt) hk (he.climbs (binary_lt_call op) hright) hlonger
      · rw [hlinks', OperatorTree.links, hrightFirst, hrightLinks]
        simp [OperatorTree.first, OperatorTree.links]
      · rcases hlevel' with rfl | hlevel'
        · exact fun q hq => by cases hq; exact hlt
        · exact hlevel'

end Climb

end Grammar

/-! ## Chains -/

namespace Parse

open Grammar

/-- The tokens of an operand. With something behind them the parser reads them and no others, without an error, as an
expression whose operators bind more strongly than those between operands. -/
def IsOperand (ts : List Token) (e : Expr) : Prop :=
  ∃ n ys, Gives (Parse.expr n .unary) (ts ++ ys) e (Behind ys)

/-- The tokens of operands with operators between them: the first operand, and each operator with the one behind it. -/
inductive IsChain : List Token → Expr → List (BinaryOp × Expr) → Prop
  | last {ts : List Token} {e : Expr} : IsOperand ts e → IsChain ts e []
  | link {op : BinaryOp} {t : Token} {e e' : Expr} {links : List (BinaryOp × Expr)} {ts ts' : List Token} :
      IsOperand ts e → binary? t.kind = some op → IsChain ts' e' links → IsChain (ts ++ t :: ts') e ((op, e') :: links)

variable {e : Expr} {links : List (BinaryOp × Expr)} {t : Token} {op : BinaryOp} {ts zs : List Token}

/-- An operand is read in front of any token that does not go on with it. -/
theorem IsOperand.reads (h : IsOperand ts e) (hzs : followsOperand (kindOf zs)) (hstops : Stops .unary zs) :
    Reads .greedy (.expression .unary) (ts ++ zs) e zs := by
  obtain ⟨n, ys, _, hgives, t, rfl⟩ := h
  obtain ⟨_, hnode, hreads⟩ := (nested_ensures n).1 .unary (ts ++ ys) _ hgives rfl
  cases hnode
  have := hreads.followed rfl hzs hstops
  rwa [List.tail_cons, behind_append] at this

theorem followsOperand_of_binary? (h : binary? t.kind = some op) (zs : List Token) :
    followsOperand t.kind ∧ Stops .unary (t :: zs) := by
  have hc := ofKind?_of_binary? h
  constructor
  · cases hk : t.kind <;> first | rfl | (rw [hk] at hc; cases hc)
  · refine (stops_iff (show Continuation.ofKind? (kindOf (t :: zs)) = _ from hc)).2 ?_
    cases op <;> decide

theorem IsChain.linked (h : IsChain ts e links) (hzs : followsOperand (kindOf zs)) (hstops : Stops .unary zs) :
    ∃ us, Reads .greedy (.expression .unary) (ts ++ zs) e us ∧ Linked zs us links := by
  induction h with
  | last he => exact ⟨zs, he.reads hzs hstops, .nil⟩
  | @link op t e e' links ts ts' he hop h ih =>
    obtain ⟨us, he', hlinks⟩ := ih
    obtain ⟨hfollows, hstops'⟩ := followsOperand_of_binary? hop (ts' ++ zs)
    have hreads : Reads .greedy (.expression .unary) (ts ++ t :: (ts' ++ zs)) e (t :: (ts' ++ zs)) :=
      he.reads hfollows hstops'
    rw [List.append_assoc, List.cons_append]
    exact ⟨_, hreads, .cons hop ⟨t.literal, t.line, rfl⟩ he' hlinks⟩

/-- **Precedence climbing.** Of all trees with the operands and the operators of a chain in order there is exactly one
that is grouped by the levels of the operators. In front of a token that ends an expression, or of the end, an
expression is read there: this tree, without an error, up to the last token of the chain. -/
theorem chain_gives (h : IsChain ts e links) (hzs : endsExpression (kindOf zs) ∨ kindOf zs = .eof) :
    (∃! tree : OperatorTree, tree.Groups e links) ∧ ∀ tree : OperatorTree, tree.Groups e links →
      ∀ n, (ts ++ zs).length < n → Gives (Parse.expr n .lowest) (ts ++ zs) tree.expr (Behind zs) := by
  have hnone : Continuation.ofKind? (kindOf zs) = none := by
    rcases hzs with hzs | hzs
    · exact ofKind?_of_ends hzs
    · rw [hzs]
      rfl
  have hstops (p : Precedence) : Stops p zs := fun c hc => by
    rw [hnone] at hc
    cases hc
  have hfollows : followsOperand (kindOf zs) := by
    rcases hzs with hzs | hzs
    · exact follows_of_ends hzs
    · rw [hzs]
      rfl
  obtain ⟨us, he, hlinks⟩ := h.linked hfollows (hstops .unary)
  have hoperand : (OperatorTree.operand e).Grouped := trivial
  obtain ⟨tree, used, rest, ys, hchain, hrest, hused, htree, hnext, -⟩ :=
    hlinks.climb (p := .lowest) (hstops .lowest) hoperand nofun
  -- every operator binds more strongly than the lowest level
  have hrest' : rest = [] := by
    cases rest with
    | nil => rfl
    | cons link rest => exact absurd (by cases link.1 <;> decide) (hnext link rfl)
  subst hrest'
  cases hrest
  rw [List.append_nil] at hused
  rw [← hused] at htree
  have hreads : Reads .greedy (.expression .lowest) (ts ++ zs) tree.expr zs := he.climbs (by decide) hchain
  refine ⟨⟨tree, htree, fun other hother => hother.unique htree⟩, fun other hother n hn => ?_⟩
  rw [hother.unique htree]
  exact hreads.found n hn

/-- `-a = b - c(d)[e] * f - g`, in which each level of operators but one occurs. -/
def mixedTokens : List Token :=
  [⟨.minus, "-", 1⟩, ⟨.ident, "a", 1⟩, ⟨.assign, "=", 1⟩, ⟨.ident, "b", 1⟩, ⟨.minus, "-", 1⟩, ⟨.ident, "c", 1⟩,
    ⟨.lparen, "(", 1⟩, ⟨.ident, "d", 1⟩, ⟨.rparen, ")", 1⟩, ⟨.lbracket, "[", 1⟩, ⟨.ident, "e", 1⟩, ⟨.rbracket, "]", 1⟩,
    ⟨.asterisk, "*", 1⟩, ⟨.ident, "f", 1⟩, ⟨.minus, "-", 1⟩, ⟨.ident, "g", 1⟩]

/-- Its tree. -/
def mixedTree : OperatorTree :=
  .node .assign (.operand (.unary .negate (.name "a")))
    (.node .sub (.node .sub (.operand (.name "b"))
      (.node .mul (.operand (.index (.call (.name "c") [.name "d"]) (.name "e"))) (.operand (.name "f"))))
      (.operand (.name "g")))

theorem mixedTokens_gives : IsChain mixedTokens mixedTree.first mixedTree.links ∧
    endsExpression (kindOf [⟨.rparen, ")", 1⟩]) ∧ mixedTree.Groups mixedTree.first mixedTree.links ∧
    Gives (Parse.expr 18 .lowest) (mixedTokens ++ [⟨.rparen, ")", 1⟩]) mixedTree.expr (Behind [⟨.rparen, ")", 1⟩]) := by
  have name (x : String) : IsOperand [⟨.ident, x, 1⟩] (.name x) := ⟨2, [], _, rfl, _, rfl⟩
  have tok {k : TokenKind} {x : String} {line : Nat} {xs : List Token} : Tok k (⟨k, x, line⟩ :: xs) xs := ⟨x, line, rfl⟩
  have lit {k : TokenKind} {x : String} {line : Nat} {xs : List Token} : Lit k x (⟨k, x, line⟩ :: xs) xs := ⟨line, rfl⟩
  have first : IsOperand (mixedTokens.take 2) mixedTree.first := ⟨3, [], _, rfl, _, rfl⟩
  have hargument : Reads .greedy .arguments (mixedTokens.drop 7) [.name "d"] (mixedTokens.drop 8) :=
    .someArguments (.expression (.name lit fun _ => ⟨nofun, nofun, nofun⟩) (.stop fun _ => nofun)) .lastArgument
  have hindex : Reads .greedy (.expression .lowest) (mixedTokens.drop 10) (.name "e") (mixedTokens.drop 11) :=
    .expression (.name lit fun _ => ⟨nofun, nofun, nofun⟩) (.stop fun _ => nofun)
  have hstops : Stops .unary (mixedTokens.drop 12) := fun c hc => by
    cases hc
    decide
  have hsuffixed : Reads .greedy (.expression .unary) (mixedTokens.drop 5)
      (.index (.call (.name "c") [.name "d"]) (.name "e")) (mixedTokens.drop 12) :=
    .expression (.name lit fun _ => ⟨nofun, nofun, nofun⟩) (.call (fun _ => by decide) tok hargument tok
      (.index (fun _ => by decide) tok hindex tok (.stop fun _ => hstops)))
  have suffixed : IsOperand ((mixedTokens.drop 5).take 7) (.index (.call (.name "c") [.name "d"]) (.name "e")) :=
    ⟨12, mixedTokens.drop 12, hsuffixed.found 12 (by decide)⟩
  have hchain : IsChain mixedTokens mixedTree.first mixedTree.links :=
    .link first rfl (.link (name "b") rfl (.link suffixed rfl (.link (name "f") rfl (.last (name "g")))))
  have hgrouped : mixedTree.Groups mixedTree.first mixedTree.links := by
    refine ⟨?_, rfl, rfl⟩
    simp only [mixedTree, OperatorTree.Grouped, OperatorTree.level?]
    decide
  exact ⟨hchain, rfl, hgrouped, (chain_gives hchain (.inl rfl)).2 mixedTree hgrouped 18 (by decide)⟩

end Parse

end Pron
