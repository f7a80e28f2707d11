import Pron.Proofs.Syntax.Canonical
import Pron.Proofs.Integer

/-!
# Legible expressions

An expression is legible when the parser reads it from its canonical text. Every kind of expression, of function and of
branch is legible when its parts are and its names, numbers and strings are words. Operators are written in parentheses;
only calls are not, and what follows the function of a call continues it. So legibility of an expression says how what
continues it is read behind its text.
-/

namespace Pron

open Scan Render Grammar
open Step (kindOf)

/-! ## Legible trees -/

/-- The canonical text of an expression is read as it, and with it what continues it. It starts with nothing that makes
an operator together with the one before it. -/
structure Expr.Legible (e : Expr) : Prop where
  head : ∀ d ∈ e.render.toList.head?, d ≠ '-' ∧ d ≠ '='
  reads (line : Nat) {cs : List Char} (hcs : Breaks cs) : ∃ line', ∀ {p : Precedence} {e' : Expr} {zs : List Token},
    p < .call → Reads .greedy (.chain p e) (tokensAt line' cs) e' zs →
      Reads .greedy (.expression p) (tokensAt line (e.render.toList ++ cs)) e' zs

/-- What comes after a block or program. -/
def Closes (cs : List Char) : Prop := cs = [] ∨ ∃ rest, cs = '\x7d' :: rest

/-- The canonical text of statements is read as they are, up to where their block or program is closed. -/
def LegibleBlock (body : List Stmt) : Prop :=
  ∀ (line : Nat) {cs : List Char}, Closes cs → ∃ line',
    Reads .greedy .statements (tokensAt line ((renderBlock body).toList ++ cs)) body (tokensAt line' cs)

/-- A closing brace closes a block. -/
theorem closes_rbrace (cs : List Char) : Closes ('\x7d' :: cs) := .inr ⟨cs, rfl⟩

variable {e l r f i : Expr} {es : List Expr} {body : List Stmt} {c : Char} {x y : String} {t : List Char → List Char}
  {cs : List Char} {xs ys : List Token} {k : TokenKind}

namespace Expr.Legible

/-- Where nothing continues an expression, it is all that is read. -/
theorem whole (h : e.Legible) (hcs : Ends cs) {p : Precedence} (hp : p < .call) (line : Nat) :
    ∃ line', Reads .greedy (.expression p) (tokensAt line (e.render.toList ++ cs)) e (tokensAt line' cs) := by
  obtain ⟨line', hreads⟩ := h.reads line hcs.toBreaks
  exact ⟨line', hreads hp (.stop fun _ => hcs.stops p line')⟩

/-- An expression in brackets of any kind, or after a word. -/
theorem full (h : e.Legible) (hcs : Ends cs) (line : Nat) :
    ∃ line', Reads .greedy (.expression .lowest) (tokensAt line (e.render.toList ++ cs)) e (tokensAt line' cs) :=
  h.whole hcs (by decide) line

/-- An expression is legible if its text is read as an operand, whatever may come after it. -/
theorem ofOperand (htext : ∀ cs, e.render.toList ++ cs = c :: t cs) (hc : c ≠ '-' ∧ c ≠ '=')
    (h : ∀ (line : Nat) {cs : List Char}, Breaks cs →
      ∃ line', Reads .greedy .operand (tokensAt line (c :: t cs)) e (tokensAt line' cs)) : e.Legible where
  head d hd := by
    have hnil := htext []
    rw [List.append_nil] at hnil
    rw [hnil] at hd
    cases hd
    exact hc
  reads line cs hcs := by
    obtain ⟨line', hreads⟩ := h line hcs
    refine ⟨line', fun hp hchain => ?_⟩
    rw [htext]
    exact .expression hreads hchain

/-! ### Words -/

/-- What may come after an operand neither continues a name nor a conditional. -/
theorem ne_of_follows (h : followsOperand k) :
    (k ≠ .dot ∧ k ≠ .increment ∧ k ≠ .decrement) ∧ k ≠ .kwElif ∧ k ≠ .kwElse := by
  refine ⟨⟨?_, ?_, ?_⟩, ?_, ?_⟩
  all_goals
    rintro rfl
    cases h

/-- No operator starts like a name. -/
theorem ne_of_startsWord (h : startsWord c) : c ≠ '-' ∧ c ≠ '=' := by
  constructor
  all_goals
    rintro rfl
    cases h

/-- No operator starts like a number. -/
theorem ne_of_isDigit (h : c.isDigit) : c ≠ '-' ∧ c ≠ '=' := by
  constructor
  all_goals
    rintro rfl
    cases h

/-- An operand that starts with a name. -/
theorem ofName (hx : IsName x) (htext : ∀ cs, e.render.toList ++ cs = x.toList ++ t cs)
    (h : ∀ (line : Nat) {cs : List Char}, Breaks cs →
      ∃ line', Reads .greedy .operand (tokensAt line (x.toList ++ t cs)) e (tokensAt line' cs)) : e.Legible := by
  obtain ⟨_, c, name, hname, hc, _⟩ := hx
  rw [hname] at h htext
  exact .ofOperand htext (ne_of_startsWord hc) h

/-- A name is read as itself, since nothing that continues a name may come after it. -/
theorem name (hx : IsName x) : (Expr.name x).Legible := by
  have htext (cs : List Char) : (Expr.name x).render.toList ++ cs = x.toList ++ cs := by
    rw [Expr.render]
  refine .ofName hx htext fun line cs hcs => ⟨line, ?_⟩
  exact .name (lit_name hx (stops_word hcs.separated)) fun _ => (ne_of_follows (hcs.follows line)).1

/-- A step is read as such, with the name in front of it. -/
theorem increment (hx : IsName x) : (Expr.increment x).Legible := by
  have htext (cs : List Char) : (Expr.increment x).render.toList ++ cs = x.toList ++ '+' :: '+' :: cs := by
    show (x ++ "++").toList ++ cs = _
    simp
  refine .ofName hx htext fun line cs _ => ⟨line, ?_⟩
  exact .increment (lit_name hx (.cons rfl)) ⟨_, line, tokensAt_operator rfl⟩

theorem decrement (hx : IsName x) : (Expr.decrement x).Legible := by
  have htext (cs : List Char) : (Expr.decrement x).render.toList ++ cs = x.toList ++ '-' :: '-' :: cs := by
    show (x ++ "--").toList ++ cs = _
    simp
  refine .ofName hx htext fun line cs _ => ⟨line, ?_⟩
  exact .decrement (lit_name hx (.cons rfl)) ⟨_, line, tokensAt_operator rfl⟩

/-- A name of the receiver is read behind its dot. -/
theorem thisName (hx : IsName x) : (Expr.thisName x).Legible := by
  have htext (cs : List Char) :
      (Expr.thisName x).render.toList ++ cs = 't' :: 'h' :: 'i' :: 's' :: '.' :: (x.toList ++ cs) := by
    show ("this." ++ x).toList ++ cs = _
    simp
  refine .ofOperand htext (by decide) fun line cs hcs => ⟨line, ?_⟩
  refine .thisName (tok_keyword (w := "this") (by decide) (.cons rfl)) (tok_delimiter rfl rfl) ?_
  exact lit_name hx (stops_word hcs.separated)

/-- Digits and the points among them start like no operator. -/
theorem number (hx : e.render = x) (hdigits : ∃ d rest, x.toList = d :: rest ∧ d.isDigit)
    (h : ∀ (line : Nat) {cs : List Char}, Breaks cs →
      Reads .greedy .operand (tokensAt line (x.toList ++ cs)) e (tokensAt line cs)) : e.Legible := by
  obtain ⟨d, rest, htext, hd⟩ := hdigits
  refine .ofOperand (t := fun cs => rest ++ cs) (c := d) ?_ (ne_of_isDigit hd) fun line cs hcs => ⟨line, ?_⟩
  · intro cs
    rw [hx, htext, List.cons_append]
  · have := h line hcs
    rwa [htext] at this

/-- An integer is read back from its digits. -/
theorem integer {n : Int64} (hx : IsDigits x.toList) (hread : Integer.read? x = some n) : (Expr.integer n).Legible := by
  obtain ⟨hdigits, hback⟩ := Integer.text_digits hx hread
  generalize htext : Integer.text n = y at hdigits hback
  obtain ⟨hne, hdigits⟩ := hdigits
  obtain ⟨d, rest, hy⟩ := List.exists_cons_of_ne_nil hne
  rw [hy] at hdigits
  refine number (by rw [Expr.render, htext]) ⟨d, rest, hy, hdigits d (List.mem_cons_self ..)⟩ fun line cs hcs => ?_
  refine .integer ⟨line, ?_⟩ hback
  rw [hy, tokensAt_digits hdigits (stops_number hcs.separated), ← hy, String.ofList_toList]

/-- A number is read back from its decimal text. -/
theorem real {q : Float} (hdecimal : IsDecimal (Double.text q).toList)
    (hback : Double.read? (Double.text q) = some q) : (Expr.real q).Legible := by
  generalize htext : Double.text q = y at hdecimal hback
  obtain ⟨whole, fraction, hy, ⟨hwhole, hwholes⟩, hfraction, hfractions⟩ := hdecimal
  obtain ⟨c, whole, rfl⟩ := List.exists_cons_of_ne_nil hwhole
  obtain ⟨d, fraction, rfl⟩ := List.exists_cons_of_ne_nil hfraction
  refine number (by rw [Expr.render, htext]) ⟨c, _, hy, hwholes c (List.mem_cons_self ..)⟩ fun line cs hcs => ?_
  refine .real ⟨line, ?_⟩ hback
  rw [hy, tokensAt_decimal hwholes hfractions (stops_digits hcs.separated), ← hy, String.ofList_toList]

/-- A string is read back if it has no quote inside, since there are no escapes. -/
theorem text {s : String} (hs : '"' ∉ s.toList) : (Expr.text s).Legible := by
  have htext (cs : List Char) : (Expr.text s).render.toList ++ cs = '"' :: (s.toList ++ '"' :: cs) := by
    show ("\"" ++ s ++ "\"").toList ++ cs = _
    simp
  refine .ofOperand htext (by decide) fun line cs hcs => ⟨line + lineEnds s.toList, ?_⟩
  refine .text ⟨line, ?_⟩
  rw [← List.cons_append, tokensAt_string hs, String.ofList_toList]

/-- The two truth values are keywords. -/
theorem boolean (b : Bool) : (Expr.boolean b).Legible := by
  cases b with
  | false =>
    have htext (cs : List Char) :
        (Expr.boolean false).render.toList ++ cs = 'f' :: 'a' :: 'l' :: 's' :: 'e' :: cs := by
      show ("false").toList ++ cs = _
      simp
    refine .ofOperand htext (by decide) fun line cs hcs => ⟨line, ?_⟩
    exact .false (tok_keyword (w := "false") (by decide) (stops_word hcs.separated))
  | true =>
    have htext (cs : List Char) : (Expr.boolean true).render.toList ++ cs = 't' :: 'r' :: 'u' :: 'e' :: cs := by
      show ("true").toList ++ cs = _
      simp
    refine .ofOperand htext (by decide) fun line cs hcs => ⟨line, ?_⟩
    exact .true (tok_keyword (w := "true") (by decide) (stops_word hcs.separated))

/-! ### Operators -/

/-- What `Breaks` says of the first character, of the text of an expression before it. -/
theorem head_append (h : e.Legible) (hcs : Separated cs) : ∀ d ∈ (e.render.toList ++ cs).head?, d ≠ '-' ∧ d ≠ '=' := by
  intro d hd
  rw [List.head?_append, Option.mem_def, Option.or_eq_some_iff] at hd
  rcases hd with hd | ⟨_, hd⟩
  · exact h.head d hd
  · exact hcs.ne d hd

/-- The operand stands behind its operator, both in parentheses. -/
theorem unary (op : UnaryOp) (h : e.Legible) : (Expr.unary op e).Legible := by
  obtain ⟨d, k, hsymbol, hop, htok⟩ := unary_symbol op
  have htext (cs : List Char) : (Expr.unary op e).render.toList ++ cs = '(' :: d :: (e.render.toList ++ ')' :: cs) := by
    show (parens (op.symbol ++ e.render)).toList ++ cs = _
    simp [parens, hsymbol]
  refine .ofOperand htext (by decide) fun line cs _ => ?_
  obtain ⟨line', hreads⟩ := h.whole (ends_rparen cs) (p := .unary) (by decide) line
  have htok := htok line (h.head_append (ends_rparen cs).separated)
  have hunary : Reads .greedy (.expression .lowest) (tokensAt line (d :: (e.render.toList ++ ')' :: cs)))
      (.unary op e) (tokensAt line' (')' :: cs)) :=
    .expression (.unary hop htok hreads) (.stop fun _ => (ends_rparen _).stops _ _)
  exact ⟨line', .group (tok_delimiter rfl rfl) hunary (tok_delimiter rfl rfl)⟩

/-- Both operands stand in parentheses with their operator, so its level does not matter. -/
theorem binary (op : BinaryOp) (hl : l.Legible) (hr : r.Legible) : (Expr.binary op l r).Legible := by
  have htext (cs : List Char) : (Expr.binary op l r).render.toList ++ cs =
      '(' :: (l.render.toList ++ ' ' :: (op.symbol.toList ++ ' ' :: (r.render.toList ++ ')' :: cs))) := by
    show (parens (l.render ++ " " ++ op.symbol ++ " " ++ r.render)).toList ++ cs = _
    simp [parens]
  refine .ofOperand htext (by decide) fun line cs _ => ?_
  obtain ⟨k, hop, htok, hbreaks⟩ := binary_symbol op (r.render.toList ++ ')' :: cs)
  obtain ⟨line₁, hl⟩ := hl.reads line hbreaks
  obtain ⟨line₂, hr⟩ := hr.whole (ends_rparen cs) (p := op.precedence) (by cases op <;> decide) line₁
  have hbinary : Reads .greedy (.chain .lowest l)
      (tokensAt line₁ (' ' :: (op.symbol.toList ++ ' ' :: (r.render.toList ++ ')' :: cs)))) (.binary op l r)
      (tokensAt line₂ (')' :: cs)) :=
    .operator hop (fun _ => by cases op <;> decide) (htok line₁).spaced hr (.stop fun _ => (ends_rparen _).stops _ _)
  exact ⟨line₂, .group (tok_delimiter rfl rfl) (hl (by decide) hbinary) (tok_delimiter rfl rfl)⟩

/-- A lookup stands in parentheses too. -/
theorem index (hl : l.Legible) (hi : i.Legible) : (Expr.index l i).Legible := by
  have htext (cs : List Char) : (Expr.index l i).render.toList ++ cs =
      '(' :: (l.render.toList ++ '[' :: (i.render.toList ++ ']' :: ')' :: cs)) := by
    show (parens (l.render ++ "[" ++ i.render ++ "]")).toList ++ cs = _
    simp [parens]
  refine .ofOperand htext (by decide) fun line cs _ => ?_
  obtain ⟨line₁, hl⟩ := hl.reads line (breaks_lbracket _)
  obtain ⟨line₂, hi⟩ := hi.full (ends_rbracket _) line₁
  have hindex : Reads .greedy (.chain .lowest l) (tokensAt line₁ ('[' :: (i.render.toList ++ ']' :: ')' :: cs)))
      (.index l i) (tokensAt line₂ (')' :: cs)) :=
    .index (fun _ => by decide) (tok_delimiter rfl rfl) hi (tok_delimiter rfl rfl)
      (.stop fun _ => (ends_rparen _).stops _ _)
  exact ⟨line₂, .group (tok_delimiter rfl rfl) (hl (by decide) hindex) (tok_delimiter rfl rfl)⟩

/-! ### Calls -/

/-- Expressions with commas between them. -/
theorem further (he : e.Legible) (hes : ∀ e ∈ es, e.Legible) (hcs : Ends cs) (line : Nat) :
    ∃ ys line',
      Reads .greedy (.expression .lowest) (tokensAt line ((commas (renderExprs (e :: es))).toList ++ cs)) e ys ∧
      Reads .greedy .furtherArguments ys es (tokensAt line' cs) := by
  induction es generalizing e line with
  | nil =>
    have htext : commas (renderExprs [e]) = e.render := String.intercalate_singleton
    rw [htext]
    obtain ⟨line', he⟩ := he.full hcs line
    exact ⟨_, line', he, .lastArgument⟩
  | cons e' es ih =>
    have htext : (commas (renderExprs (e :: e' :: es))).toList ++ cs =
        e.render.toList ++ ',' :: ' ' :: ((commas (renderExprs (e' :: es))).toList ++ cs) := by
      simp [commas, renderExprs, String.intercalate_cons_cons]
    obtain ⟨he', hes⟩ := List.forall_mem_cons.1 hes
    obtain ⟨line₁, he⟩ := he.full (ends_comma (' ' :: ((commas (renderExprs (e' :: es))).toList ++ cs))) line
    obtain ⟨ys, line₂, he', hes⟩ := ih he' hes line₁
    rw [htext]
    exact ⟨_, line₂, he, .furtherArgument (tok_delimiter rfl rfl) he'.spaced hes⟩

/-- Arguments are read up to the closing bracket. -/
theorem arguments (hes : ∀ e ∈ es, e.Legible) (hcs : Ends cs) (line : Nat) : ∃ line',
    Reads .greedy .arguments (tokensAt line ((commas (renderExprs es)).toList ++ cs)) es (tokensAt line' cs) := by
  cases es with
  | nil => exact ⟨line, .noArguments⟩
  | cons e es =>
    obtain ⟨he, hes⟩ := List.forall_mem_cons.1 hes
    obtain ⟨ys, line', he, hes⟩ := further he hes hcs line
    exact ⟨line', .someArguments he hes⟩

/-- A call has no parentheses around it: what continues it continues the function of the call. -/
theorem call (hf : f.Legible) (hes : ∀ e ∈ es, e.Legible) : (Expr.call f es).Legible where
  head := by
    have htext : (Expr.call f es).render.toList =
        f.render.toList ++ '(' :: ((commas (renderExprs es)).toList ++ [')']) := by
      show (f.render ++ parens (commas (renderExprs es))).toList = _
      simp [parens]
    rw [htext]
    exact hf.head_append (.cons (by decide))
  reads line cs hcs := by
    have htext : (Expr.call f es).render.toList ++ cs =
        f.render.toList ++ '(' :: ((commas (renderExprs es)).toList ++ ')' :: cs) := by
      show (f.render ++ parens (commas (renderExprs es))).toList ++ cs = _
      simp [parens]
    obtain ⟨line₁, hf⟩ := hf.reads line (breaks_lparen _)
    obtain ⟨line₂, hes⟩ := arguments hes (ends_rparen _) line₁
    refine ⟨line₂, fun hp hchain => ?_⟩
    rw [htext]
    exact hf hp (.call (fun _ => hp) (tok_delimiter rfl rfl) hes (tok_delimiter rfl rfl) hchain)

/-- The elements of an array are read up to its bracket. -/
theorem array (hes : ∀ e ∈ es, e.Legible) : (Expr.array es).Legible := by
  have htext (cs : List Char) :
      (Expr.array es).render.toList ++ cs = '[' :: ((commas (renderExprs es)).toList ++ ']' :: cs) := by
    show ("[" ++ commas (renderExprs es) ++ "]").toList ++ cs = _
    simp
  refine .ofOperand htext (by decide) fun line cs _ => ?_
  obtain ⟨line', hes⟩ := arguments hes (ends_rbracket _) line
  exact ⟨line', .array (tok_delimiter rfl rfl) hes (tok_delimiter rfl rfl)⟩

/-- The arguments of a constructor are read behind the name of the class. -/
theorem new (hx : IsName x) (hes : ∀ e ∈ es, e.Legible) : (Expr.new x es).Legible := by
  have htext (cs : List Char) : (Expr.new x es).render.toList ++ cs =
      'n' :: 'e' :: 'w' :: ' ' :: (x.toList ++ '(' :: ((commas (renderExprs es)).toList ++ ')' :: cs)) := by
    show ("new " ++ x ++ parens (commas (renderExprs es))).toList ++ cs = _
    simp [parens]
  refine .ofOperand htext (by decide) fun line cs _ => ?_
  obtain ⟨line', hes⟩ := arguments hes (ends_rparen _) line
  exact ⟨line', .new (tok_keyword (w := "new") (by decide) (.cons rfl)) (lit_name hx (.cons rfl)).spaced
    (tok_delimiter rfl rfl) hes (tok_delimiter rfl rfl)⟩

/-- The arguments of a method call are read behind the two names. -/
theorem methodCall (hx : IsName x) (hy : IsName y) (hes : ∀ e ∈ es, e.Legible) : (Expr.methodCall x y es).Legible := by
  have htext (cs : List Char) : (Expr.methodCall x y es).render.toList ++ cs =
      x.toList ++ '.' :: (y.toList ++ '(' :: ((commas (renderExprs es)).toList ++ ')' :: cs)) := by
    show (x ++ "." ++ y ++ parens (commas (renderExprs es))).toList ++ cs = _
    simp [parens]
  refine .ofName hx htext fun line cs _ => ?_
  obtain ⟨line', hes⟩ := arguments hes (ends_rparen _) line
  exact ⟨line', .methodCall (lit_name hx (.cons rfl)) (tok_delimiter rfl rfl) (lit_name hy (.cons rfl))
    (tok_delimiter rfl rfl) hes (tok_delimiter rfl rfl)⟩

/-! ### Hash literals -/

/-- Keys and values are read up to the closing brace. -/
theorem pairs {pairs : List KeyValue} (hpairs : ∀ p ∈ pairs, p.key.Legible ∧ p.value.Legible) (hcs : Ends cs)
    (line : Nat) : ∃ line',
      Reads .greedy .pairs (tokensAt line ((commas (renderPairs pairs)).toList ++ cs)) pairs (tokensAt line' cs) := by
  induction pairs generalizing line with
  | nil => exact ⟨line, .noPairs⟩
  | cons p pairs ih =>
    obtain ⟨key, value⟩ := p
    obtain ⟨⟨hkey, hvalue⟩, hpairs⟩ := List.forall_mem_cons.1 hpairs
    cases pairs with
    | nil =>
      have htext : (commas (renderPairs [⟨key, value⟩])).toList ++ cs =
          key.render.toList ++ ':' :: ' ' :: (value.render.toList ++ cs) := by
        show (commas [key.render ++ ": " ++ value.render]).toList ++ cs = _
        simp [commas]
      obtain ⟨line₁, hkey⟩ := hkey.full (ends_colon (' ' :: (value.render.toList ++ cs))) line
      obtain ⟨line₂, hvalue⟩ := hvalue.full hcs line₁
      rw [htext]
      exact ⟨line₂, .lastPair hkey (tok_delimiter rfl rfl) hvalue.spaced⟩
    | cons p' pairs =>
      generalize htail : (commas (renderPairs (p' :: pairs))).toList ++ cs = tail at ih
      have htext : (commas (renderPairs (⟨key, value⟩ :: p' :: pairs))).toList ++ cs =
          key.render.toList ++ ':' :: ' ' :: (value.render.toList ++ ',' :: ' ' :: tail) := by
        show (commas ((key.render ++ ": " ++ value.render) :: p'.render :: renderPairs pairs)).toList ++ cs = _
        rw [← htail, commas, String.intercalate_cons_cons]
        simp [commas, renderPairs]
      obtain ⟨line₁, hkey⟩ := hkey.full (ends_colon (' ' :: (value.render.toList ++ ',' :: ' ' :: tail))) line
      obtain ⟨line₂, hvalue⟩ := hvalue.full (ends_comma (' ' :: tail)) line₁
      obtain ⟨line₃, hpairs⟩ := ih hpairs line₂
      rw [htext]
      exact ⟨line₃, .pair hkey (tok_delimiter rfl rfl) hvalue.spaced (tok_delimiter rfl rfl) hpairs.spaced⟩

/-- The braces of a hash stand where an operand is read, so they are no block. -/
theorem hash {pairs : List KeyValue} (hpairs : ∀ p ∈ pairs, p.key.Legible ∧ p.value.Legible) :
    (Expr.hash pairs).Legible := by
  have htext (cs : List Char) : (Expr.hash pairs).render.toList ++ cs =
      '\x7b' :: ((commas (renderPairs pairs)).toList ++ '\x7d' :: cs) := by
    show (braces (commas (renderPairs pairs))).toList ++ cs = _
    simp [braces]
  refine .ofOperand htext (by decide) fun line cs _ => ?_
  obtain ⟨line', hpairs⟩ := Legible.pairs hpairs (ends_rbrace _) line
  exact ⟨line', .hash (tok_delimiter rfl rfl) hpairs (tok_delimiter rfl rfl)⟩

end Expr.Legible

/-! ## Blocks, functions and branches -/

/-- A text that is read as a tree, whatever comes after it. -/
def Written (phrase : Phrase) (text : String) (tree : phrase.Tree) : Prop :=
  ∀ (line : Nat) (cs : List Char), ∃ line',
    Reads .greedy phrase (tokensAt line (text.toList ++ cs)) tree (tokensAt line' cs)

/-- A legible block is read with its braces. -/
theorem LegibleBlock.written (h : LegibleBlock body) : Written .block (braces (renderBlock body)) body := by
  intro line cs
  have htext : (braces (renderBlock body)).toList ++ cs = '\x7b' :: ((renderBlock body).toList ++ '\x7d' :: cs) := by
    simp [braces]
  obtain ⟨line', hbody⟩ := h line (closes_rbrace cs)
  rw [htext]
  exact ⟨line', .block (tok_delimiter rfl rfl) hbody (tok_delimiter rfl rfl)⟩

/-- Items stand behind a comma and a space. -/
theorem tok_comma {line : Nat} : Tok .comma (tokensAt line (',' :: ' ' :: cs)) (tokensAt line cs) := by
  rw [← tokensAt_space line cs]
  exact tok_delimiter rfl rfl

/-- Items of one token each, with commas between them, up to a closing parenthesis. -/
theorem items_written {α : Type} {item : List Token → α → List Token → Prop} {text : α → String} {as : List α}
    {line : Nat}
    (hitem : ∀ a ∈ as, ∀ {cs}, Separated cs → item (tokensAt line ((text a).toList ++ cs)) a (tokensAt line cs)) :
    Items item .rparen (tokensAt line ((commas (as.map text)).toList ++ ')' :: cs)) as (tokensAt line cs) := by
  have hfurther (a : α) (as : List α)
      (hitem : ∀ b ∈ a :: as, ∀ {cs}, Separated cs →
        item (tokensAt line ((text b).toList ++ cs)) b (tokensAt line cs)) :
      ∃ ys, item (tokensAt line ((commas ((a :: as).map text)).toList ++ ')' :: cs)) a ys ∧
        Further item ys as (tokensAt line (')' :: cs)) := by
    induction as generalizing a with
    | nil =>
      rw [List.map_cons, List.map_nil, commas, String.intercalate_singleton]
      exact ⟨_, hitem a (List.mem_cons_self ..) (.cons (by decide)), .nil⟩
    | cons b as ih =>
      obtain ⟨ha, has⟩ := List.forall_mem_cons.1 hitem
      obtain ⟨ys, hb, has⟩ := ih b has
      have htext : (commas ((a :: b :: as).map text)).toList ++ ')' :: cs =
          (text a).toList ++ ',' :: ' ' :: ((commas ((b :: as).map text)).toList ++ ')' :: cs) := by
        simp [commas, String.intercalate_cons_cons]
      rw [htext]
      exact ⟨_, ha (.cons (by decide)), .cons tok_comma hb has⟩
  cases as with
  | nil => exact .none (tok_delimiter rfl rfl)
  | cons a as =>
    obtain ⟨ys, ha, has⟩ := hfurther a as hitem
    exact .some ha has (tok_delimiter rfl rfl)

/-- The text of a function begins with whatever is written in front of it. -/
theorem FunctionLit.render_head (literal : FunctionLit) (head : String) :
    literal.render head = head ++ literal.render "" := by
  obtain ⟨parameters, body⟩ := literal
  show head ++ parens (commas parameters) ++ " " ++ braces (renderBlock body) =
    head ++ ("" ++ parens (commas parameters) ++ " " ++ braces (renderBlock body))
  rw [String.empty_append, String.append_assoc, String.append_assoc, String.append_assoc]

theorem toList_functionLit (parameters : List String) (body : List Stmt) (cs : List Char) :
    (FunctionLit.render "" ⟨parameters, body⟩).toList ++ cs =
      '(' :: ((commas parameters).toList ++ ')' :: ' ' :: ((braces (renderBlock body)).toList ++ cs)) := by
  show ("" ++ parens (commas parameters) ++ " " ++ braces (renderBlock body)).toList ++ cs = _
  simp [parens]

/-- A function is read back from its parameters and its body. -/
theorem functionLit_written {parameters : List String} (hparameters : ∀ x ∈ parameters, IsName x)
    (hbody : LegibleBlock body) : Written .function (FunctionLit.render "" ⟨parameters, body⟩) ⟨parameters, body⟩ := by
  intro line cs
  obtain ⟨line', hbody⟩ := hbody.written line cs
  have hcommas : commas parameters = commas (parameters.map id) := by rw [List.map_id]
  rw [toList_functionLit, hcommas]
  refine ⟨line', .functionLit ⟨_, tok_delimiter rfl rfl, items_written fun x hx cs hcs => ?_⟩ hbody.spaced⟩
  exact lit_name (hparameters x hx) (stops_word hcs)

/-- A branch is read back from its condition in parentheses and its block. -/
theorem branch_written (he : e.Legible) (hbody : LegibleBlock body) :
    Written .branch (Branch.render ⟨e, body⟩) ⟨e, body⟩ := by
  intro line cs
  have htext : (Branch.render ⟨e, body⟩).toList ++ cs =
      '(' :: (e.render.toList ++ ')' :: ' ' :: ((braces (renderBlock body)).toList ++ cs)) := by
    show (parens e.render ++ " " ++ braces (renderBlock body)).toList ++ cs = _
    simp [parens]
  obtain ⟨line₁, he⟩ := he.full (ends_rparen (' ' :: ((braces (renderBlock body)).toList ++ cs))) line
  obtain ⟨line₂, hbody⟩ := hbody.written line₁ cs
  rw [htext]
  exact ⟨line₂, .branch (tok_delimiter rfl rfl) he (tok_delimiter rfl rfl) hbody.spaced⟩

/-- The arms after the first one, where no further one follows. -/
theorem furtherBranches_written {branches : List Branch} (hbranches : ∀ b ∈ branches, Written .branch b.render b)
    (hcs : ∀ line, kindOf (tokensAt line cs) ≠ .kwElif) (line : Nat) : ∃ line', Reads .greedy .furtherBranches
      (tokensAt line ((renderBranches " elif" branches).toList ++ cs)) branches (tokensAt line' cs) := by
  induction branches generalizing line with
  | nil => exact ⟨line, .lastBranch fun _ => hcs line⟩
  | cons b branches ih =>
    obtain ⟨hb, hbranches⟩ := List.forall_mem_cons.1 hbranches
    have htext : (renderBranches " elif" (b :: branches)).toList ++ cs =
        ' ' :: 'e' :: 'l' :: 'i' :: 'f' :: ' ' ::
          (b.render.toList ++ ((renderBranches " elif" branches).toList ++ cs)) := by
      show (" elif" ++ " " ++ b.render ++ renderBranches " elif" branches).toList ++ cs = _
      simp
    obtain ⟨line₁, hb⟩ := hb line ((renderBranches " elif" branches).toList ++ cs)
    obtain ⟨line₂, hbranches⟩ := ih hbranches line₁
    rw [htext]
    exact ⟨line₂, .furtherBranch (tok_keyword (w := "elif") (by decide) (.cons rfl)).spaced hb.spaced hbranches⟩

theorem toList_otherwise (body : List Stmt) (cs : List Char) : (renderOtherwise (some body)).toList ++ cs =
    ' ' :: 'e' :: 'l' :: 's' :: 'e' :: ' ' :: ((braces (renderBlock body)).toList ++ cs) := by
  show (" else " ++ braces (renderBlock body)).toList ++ cs = _
  simp

/-- The last block is read back, if there is one, and is not missed if there is none. -/
theorem otherwise_written {last : Option (List Stmt)} (hlast : ∀ body ∈ last, LegibleBlock body)
    (hcs : ∀ line, kindOf (tokensAt line cs) ≠ .kwElse) (line : Nat) : ∃ line', Reads .greedy .otherwise
      (tokensAt line ((renderOtherwise last).toList ++ cs)) last (tokensAt line' cs) := by
  cases last with
  | none => exact ⟨line, .noElse fun _ => hcs line⟩
  | some body =>
    obtain ⟨line', hbody⟩ := (hlast body rfl).written line cs
    rw [toList_otherwise]
    exact ⟨line', .else (tok_keyword (w := "else") (by decide) (.cons rfl)).spaced hbody.spaced⟩

namespace Expr.Legible

/-- A conditional is read back from its branches. -/
theorem conditional {first : Branch} {more : List Branch} {last : Option (List Stmt)}
    (hbranches : ∀ b ∈ first :: more, Written .branch b.render b) (hlast : ∀ body ∈ last, LegibleBlock body) :
    (Expr.conditional (first :: more) last).Legible := by
  have htext (cs : List Char) : (Expr.conditional (first :: more) last).render.toList ++ cs = 'i' :: 'f' :: ' ' ::
      (first.render.toList ++ ((renderBranches " elif" more).toList ++ ((renderOtherwise last).toList ++ cs))) := by
    show ("if" ++ " " ++ first.render ++ renderBranches " elif" more ++ renderOtherwise last).toList ++ cs = _
    simp
  refine .ofOperand htext (by decide) fun line cs hcs => ?_
  obtain ⟨hfirst, hmore⟩ := List.forall_mem_cons.1 hbranches
  have hfollows (line : Nat) := (ne_of_follows (hcs.follows line)).2
  -- behind the arms comes `else`, or what is behind the conditional
  have hotherwise (line : Nat) : kindOf (tokensAt line ((renderOtherwise last).toList ++ cs)) ≠ .kwElif := by
    cases last with
    | none => exact (hfollows line).1
    | some body =>
      have helse : Tok .kwElse (tokensAt line (' ' :: 'e' :: 'l' :: 's' :: 'e' :: ' ' ::
          ((braces (renderBlock body)).toList ++ cs))) _ :=
        (tok_keyword (w := "else") (by decide) (.cons rfl)).spaced
      rw [toList_otherwise, helse.kindOf_eq]
      nofun
  obtain ⟨line₁, hfirst⟩ := hfirst line ((renderBranches " elif" more).toList ++ ((renderOtherwise last).toList ++ cs))
  obtain ⟨line₂, hmore⟩ := furtherBranches_written hmore hotherwise line₁
  obtain ⟨line₃, hlast⟩ := otherwise_written hlast (fun line => (hfollows line).2) line₂
  exact ⟨line₃, .conditional (tok_keyword (w := "if") (by decide) (.cons rfl)) hfirst.spaced hmore hlast⟩

/-- A function is read back behind its keyword. -/
theorem function {literal : FunctionLit} (hliteral : Written .function (literal.render "") literal) :
    (Expr.function literal).Legible := by
  obtain ⟨parameters, body⟩ := literal
  have htext (cs : List Char) : (Expr.function ⟨parameters, body⟩).render.toList ++ cs =
      'f' :: 'u' :: 'n' :: 'c' :: ((FunctionLit.render "" ⟨parameters, body⟩).toList ++ cs) := by
    show (FunctionLit.render "func" ⟨parameters, body⟩).toList ++ cs = _
    rw [FunctionLit.render_head]
    simp
  refine .ofOperand htext (by decide) fun line cs _ => ?_
  obtain ⟨line', hliteral⟩ := hliteral line cs
  refine ⟨line', .function (tok_keyword (w := "func") (by decide) ?_) hliteral⟩
  show Scan.Stops continuesWord ((FunctionLit.render "" ⟨parameters, body⟩).toList ++ cs)
  rw [toList_functionLit]
  exact .cons rfl

/-- A loop over numbers is read back from its bounds and its body. -/
theorem rangeFor (hx : IsName x) (hl : l.Legible) (hr : r.Legible) (hbody : LegibleBlock body) :
    (Expr.rangeFor x l r body).Legible := by
  have htext (cs : List Char) : (Expr.rangeFor x l r body).render.toList ++ cs = 'f' :: 'o' :: 'r' :: ' ' :: '(' ::
      (x.toList ++ ' ' :: 'f' :: 'r' :: 'o' :: 'm' :: ' ' :: (l.render.toList ++ ' ' :: 't' :: 'o' :: ' ' ::
        (r.render.toList ++ ')' :: ' ' :: ((braces (renderBlock body)).toList ++ cs)))) := by
    show ("for " ++ parens (x ++ " from " ++ l.render ++ " to " ++ r.render) ++ " " ++
      braces (renderBlock body)).toList ++ cs = _
    simp [parens]
  refine .ofOperand htext (by decide) fun line cs _ => ?_
  obtain ⟨line₁, hl⟩ :=
    hl.full (ends_to (r.render.toList ++ ')' :: ' ' :: ((braces (renderBlock body)).toList ++ cs))) line
  obtain ⟨line₂, hr⟩ := hr.full (ends_rparen (' ' :: ((braces (renderBlock body)).toList ++ cs))) line₁
  obtain ⟨line₃, hbody⟩ := hbody.written line₂ cs
  exact ⟨line₃, .rangeFor (tok_keyword (w := "for") (by decide) (.cons rfl)) (tok_delimiter rfl rfl).spaced
    (lit_name hx (.cons rfl)) (tok_keyword (w := "from") (by decide) (.cons rfl)).spaced hl.spaced
    (tok_keyword (w := "to") (by decide) (.cons rfl)).spaced hr.spaced (tok_delimiter rfl rfl) hbody.spaced⟩

/-- A loop over elements is read back from its two names and its body. -/
theorem collectionFor (hx : IsName x) (hy : IsName y) (hbody : LegibleBlock body) :
    (Expr.collectionFor x y body).Legible := by
  have htext (cs : List Char) : (Expr.collectionFor x y body).render.toList ++ cs = 'f' :: 'o' :: 'r' :: ' ' :: '(' ::
      (x.toList ++ ' ' :: 'i' :: 'n' :: ' ' ::
        (y.toList ++ ')' :: ' ' :: ((braces (renderBlock body)).toList ++ cs))) := by
    show ("for " ++ parens (x ++ " in " ++ y) ++ " " ++ braces (renderBlock body)).toList ++ cs = _
    simp [parens]
  refine .ofOperand htext (by decide) fun line cs _ => ?_
  obtain ⟨line', hbody⟩ := hbody.written line cs
  exact ⟨line', .collectionFor (tok_keyword (w := "for") (by decide) (.cons rfl)) (tok_delimiter rfl rfl).spaced
    (lit_name hx (.cons rfl)) (tok_keyword (w := "in") (by decide) (.cons rfl)).spaced (lit_name hy (.cons rfl)).spaced
    (tok_delimiter rfl rfl) hbody.spaced⟩

end Expr.Legible

end Pron
