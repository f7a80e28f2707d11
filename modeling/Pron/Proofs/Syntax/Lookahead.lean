import Pron.Proofs.Syntax.Grammar

/-!
# Where phrases start, and how long they are

The first token tells expressions from statements and both from what may come after them, and every phrase that is not
optional takes at least one token. Both hold of all derivations, whatever is asked of them beyond the productions.
-/

namespace Pron

namespace Grammar

open Step (kindOf)

variable {α : Type} {rules : Rules} {k : TokenKind} {x : String} {xs ys : List Token}

/-! ## First tokens -/

/-- The token in front shows its kind. -/
theorem Tok.kindOf_eq (h : Tok k xs ys) : kindOf xs = k := by
  obtain ⟨x, line, rfl⟩ := h
  rfl

theorem Lit.tok (h : Lit k x xs ys) : Tok k xs ys := ⟨x, h⟩

theorem Lit.kindOf_eq (h : Lit k x xs ys) : kindOf xs = k := h.tok.kindOf_eq

/-- The kinds of token that an expression starts with. -/
def startsOperand : TokenKind → Bool
  | .ident | .int | .real | .str | .bang | .minus | .lparen | .lbracket | .lbrace => true
  | .kwThis | .kwTrue | .kwFalse | .kwIf | .kwFunc | .kwFor | .kwNew => true
  | _ => false

/-- The kinds of token that a statement starts with. -/
def startsStatement (k : TokenKind) : Bool := startsOperand k || k == .kwVar || k == .kwReturn || k == .kwClass

/-- An operand begins with one of the tokens that choose its form. -/
theorem Reads.operand_starts {e : Expr} (h : Reads rules .operand xs e ys) : startsOperand (kindOf xs) := by
  cases h with
  | name h | increment h | decrement h | methodCall h | integer h | real h | text h => rw [h.kindOf_eq]; rfl
  | thisName h | true h | false h | group h | conditional h | function h | array h | hash h | rangeFor h
  | collectionFor h | new h => rw [h.kindOf_eq]; rfl
  | @unary op k _ _ _ _ hop h =>
    rw [h.kindOf_eq]
    cases k <;> first | rfl | cases hop

/-- An expression begins as its first operand does. -/
theorem Reads.expression_starts {p : Precedence} {e : Expr} (h : Reads rules (.expression p) xs e ys) :
    startsOperand (kindOf xs) := by
  cases h with
  | expression h => exact h.operand_starts

/-- The name of a function stands only in a declaration. -/
theorem Reads.expression_func {p : Precedence} {e : Expr} (h : Reads rules (.expression p) xs e ys)
    (hk : kindOf xs = .kwFunc) : kindOf xs.tail ≠ .ident := by
  cases h with
  | expression h =>
    cases h with
    | function hfunc hliteral =>
      obtain ⟨_, _, rfl⟩ := hfunc
      cases hliteral with
      | functionLit hparameters =>
        obtain ⟨_, hopen, _⟩ := hparameters
        show kindOf _ ≠ _
        rw [List.tail_cons, hopen.kindOf_eq]
        nofun
    | name h | increment h | decrement h | methodCall h | integer h | real h | text h =>
      rw [h.kindOf_eq] at hk; cases hk
    | thisName h | true h | false h | group h | conditional h | array h | hash h | rangeFor h
    | collectionFor h | new h => rw [h.kindOf_eq] at hk; cases hk
    | unary hop h =>
      rw [h.kindOf_eq] at hk
      subst hk
      cases hop

/-- A declared function begins with its name. -/
theorem Reads.declaration_starts {decl : FunctionDecl} (h : Reads rules .declaration xs decl ys) :
    kindOf xs = .ident := by
  cases h with
  | declaration hname => exact hname.kindOf_eq

/-- Each statement begins with a token of its own or with an operand. -/
theorem Reads.statement_starts {s : Stmt} (h : Reads rules .statement xs s ys) : startsStatement (kindOf xs) := by
  cases h with
  | var h | ret h | functionDecl h | classDecl h => rw [h.kindOf_eq]; rfl
  | expr h => rw [startsStatement, h.expression_starts]; rfl

/-- The end of a class is never taken for a member. -/
theorem Reads.member_starts {m : Member} (h : Reads rules .member xs m ys) :
    kindOf xs ≠ .rbrace ∧ kindOf xs ≠ .eof := by
  cases h with
  | field h | method h | init h | empty h => rw [h.kindOf_eq]; exact ⟨nofun, nofun⟩

/-- Binary operators continue an expression. -/
theorem ofKind?_of_binary? {op : BinaryOp} (h : binary? k = some op) :
    Continuation.ofKind? k = some (.operator op) := by
  unfold binary? at h
  split at h
  · next op' hc =>
    cases h
    exact hc
  · cases h

/-! ## Lengths -/

theorem Tok.length (h : Tok k xs ys) : xs.length = ys.length + 1 := by
  obtain ⟨x, line, rfl⟩ := h
  rfl

theorem Lit.length (h : Lit k x xs ys) : xs.length = ys.length + 1 := h.tok.length

/-- A semicolon takes one token or none. -/
theorem Semicolon.length {needed : Prop} (h : Semicolon rules needed xs ys) : ys.length ≤ xs.length := by
  cases h with
  | there h => rw [h.length]; omega
  | missing => exact Nat.le_refl _

section Lists

variable {item : List Token → α → List Token → Prop} (hitem : ∀ {xs a ys}, item xs a ys → ys.length ≤ xs.length)

include hitem

/-- Further items never give tokens back. -/
theorem Further.length {as : List α} (h : Further item xs as ys) : ys.length ≤ xs.length := by
  induction h with
  | nil => exact Nat.le_refl _
  | cons hcomma ha _ ih =>
    have := hcomma.length
    have := hitem ha
    omega

/-- A list takes its closing bracket at least. -/
theorem Items.length {close : TokenKind} {as : List α} (h : Items item close xs as ys) : ys.length < xs.length := by
  cases h with
  | none hclose => rw [hclose.length]; omega
  | some ha has hclose =>
    have := hitem ha
    have := has.length hitem
    have := hclose.length
    omega

omit hitem in
/-- Items of one kind are items of another. -/
theorem Items.mono {item' : List Token → α → List Token → Prop} {close : TokenKind} {as : List α}
    (h : Items item close xs as ys) (hitem : ∀ {xs a ys}, item xs a ys → item' xs a ys) :
    Items item' close xs as ys := by
  cases h with
  | none h => exact .none h
  | some ha has h =>
    refine .some (hitem ha) ?_ h
    clear ha h
    induction has with
    | nil => exact .nil
    | cons hcomma ha _ ih => exact .cons hcomma (hitem ha) ih

end Lists

/-- Parameters take their parentheses at least. -/
theorem Parameters.length {names : List String} (h : Parameters xs names ys) : ys.length < xs.length := by
  obtain ⟨zs, hopen, hnames⟩ := h
  have := hopen.length
  have := hnames.length fun h => by rw [h.length]; omega
  omega

/-- A parameter of a constructor gives no tokens back. -/
theorem Param.length {p : ConstructorParam} (h : Param xs p ys) : ys.length ≤ xs.length := by
  cases h with
  | name hx => rw [hx.length]; omega
  | field hthis hdot hx => rw [hthis.length, hdot.length, hx.length]; omega

theorem Params.length {params : List ConstructorParam} (h : Params xs params ys) : ys.length < xs.length := by
  obtain ⟨zs, hopen, hparams⟩ := h
  have := hopen.length
  have := hparams.length Param.length
  omega

/-- The number of tokens that a phrase takes at least. -/
def least : Phrase → Nat
  | .expression _ | .operand | .branch | .function | .declaration | .constructor | .member | .statement | .block => 1
  | _ => 0

section

variable {phrase : Phrase} {tree : phrase.Tree} (h : Reads rules phrase xs tree ys)

include h

/-- Every phrase takes as many tokens as its kind needs at least. -/
theorem Reads.length : ys.length + least phrase ≤ xs.length := by
  induction h <;> simp only [least] at * <;>
    grind [→ Tok.length, → Lit.length, → Semicolon.length, → Parameters.length, → Params.length]

theorem Reads.length_le : ys.length ≤ xs.length := Nat.le_trans (Nat.le_add_right _ _) h.length

/-- Expressions, blocks, statements and the like take at least one token. -/
theorem Reads.length_lt (hleast : least phrase = 1) : ys.length < xs.length := by
  have := h.length
  omega

end

end Grammar

end Pron
