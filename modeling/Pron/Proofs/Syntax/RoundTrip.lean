import Pron.Proofs.Syntax.Completeness
import Pron.Proofs.Syntax.Legible
import Pron.Proofs.Syntax.Plain
import Pron.Proofs.Syntax.Soundness
import Pron.Proofs.Double.Decimal

/-!
# Canonical texts are read back

A program that a source is read as without errors is read again, and without errors, from its canonical text, when it is
plain (`parseSource_render`). The names, numbers and strings of the tree are those of words of the source, so each tree
of a derivation is legible (`Spells.legible`, by induction on how the tree is spelled), and what is legible has a
derivation from the tokens of its canonical text that keeps the conventions of the parser.
-/

namespace Pron

open Scan Render Grammar
open Step (kindOf)

variable {e : Expr} {body : List Stmt} {x : String} {cs : List Char} {line : Nat}

/-! ## Statements -/

/-- What closes a block ends an expression. -/
theorem Closes.ends (h : Closes cs) : Ends cs := by
  rcases h with rfl | ⟨rest, rfl⟩
  · exact ends_nil
  · exact ends_rbrace rest

theorem Closes.kindOf_eq (h : Closes cs) (line : Nat) :
    kindOf (tokensAt line cs) = .eof ∨ kindOf (tokensAt line cs) = .rbrace := by
  rcases h with rfl | ⟨rest, rfl⟩
  · rw [tokensAt_nil]
    exact .inl rfl
  · exact .inr (tok_delimiter rfl rfl).kindOf_eq

/-- The next token is no semicolon, which would belong to what is before it. -/
def NoSemicolon (cs : List Char) : Prop := ∀ line, kindOf (tokensAt line cs) ≠ .semicolon

/-- No semicolon closes a block. -/
theorem Closes.noSemicolon (h : Closes cs) : NoSemicolon cs := by
  intro line hk
  rcases h.kindOf_eq line with h | h
  all_goals
    rw [hk] at h
    cases h

/-- The canonical text of a statement is read as it, an expression only at the end of its block or program. -/
def Stmt.Legible (s : Stmt) : Prop :=
  ∀ (line : Nat) {cs : List Char}, NoSemicolon cs → (s.isExpr → Closes cs) → ∃ line',
    Reads .greedy .statement (tokensAt line (s.render.toList ++ cs)) s (tokensAt line' cs)

theorem legibleBlock_nil : LegibleBlock [] := fun line _ _ => ⟨line, .noStatements⟩

/-- A statement in front of a block. An expression has no semicolon of its own, so it stands last. -/
theorem legibleBlock_cons {s : Stmt} (hs : s.Legible) (hlast : s.isExpr → body = []) (hbody : LegibleBlock body) :
    LegibleBlock (s :: body) := by
  intro line cs hcs
  have htext : (renderBlock (s :: body)).toList ++ cs = s.render.toList ++ ((renderBlock body).toList ++ cs) := by
    show (s.render ++ renderBlock body).toList ++ cs = _
    simp
  -- what comes next is a statement or closes the block
  have hnext : NoSemicolon ((renderBlock body).toList ++ cs) := by
    intro line hk
    obtain ⟨line', hbody⟩ := hbody line hcs
    generalize hxs : tokensAt line ((renderBlock body).toList ++ cs) = xs at hbody hk
    generalize hys : tokensAt line' cs = ys at hbody
    cases hbody with
    | noStatements => exact hcs.noSemicolon line' (hys ▸ hk)
    | statements h =>
      have := h.statement_starts
      rw [hk] at this
      cases this
  have hclosed (hexpr : s.isExpr) : Closes ((renderBlock body).toList ++ cs) := by
    rw [hlast hexpr]
    exact hcs
  obtain ⟨line₁, hs⟩ := hs line hnext hclosed
  obtain ⟨line₂, hbody⟩ := hbody line₁ hcs
  rw [htext]
  exact ⟨line₂, .statements hs hbody⟩

/-- An expression is read back as the statement it is. -/
theorem Stmt.Legible.expr (he : e.Legible) : (Stmt.expr e).Legible := by
  intro line cs hcs hclosed
  obtain ⟨line', he⟩ := he.full (hclosed rfl).ends line
  exact ⟨line', .expr he (.missing id fun _ => hcs line')⟩

/-- A result is read back behind its keyword. -/
theorem Stmt.Legible.ret (he : e.Legible) : (Stmt.ret e).Legible := by
  intro line cs _ _
  have htext : (Stmt.ret e).render.toList ++ cs =
      'r' :: 'e' :: 't' :: 'u' :: 'r' :: 'n' :: ' ' :: (e.render.toList ++ ';' :: cs) := by
    show ("return " ++ e.render ++ ";").toList ++ cs = _
    simp
  obtain ⟨line', he⟩ := he.full (ends_semicolon cs) line
  rw [htext]
  exact ⟨line', .ret (tok_keyword (w := "return") (by decide) (.cons rfl)) (.result he.spaced)
    (.there (tok_delimiter rfl rfl))⟩

/-- The text that introduces a variable or field with its initial value. -/
def bindingText (x : String) (e : Expr) : String := "var " ++ x ++ " = " ++ e.render ++ ";"

/-- A name, an equals sign and a value, up to the semicolon. -/
theorem binding_reads (hx : IsName x) (he : e.Legible) (line : Nat) (cs : List Char) : ∃ xs ys line',
    Tok .kwVar (tokensAt line ((bindingText x e).toList ++ cs)) xs ∧ Lit .ident x xs ys ∧
      Reads .greedy .initial ys e (tokensAt line' (';' :: cs)) := by
  have htext : (bindingText x e).toList ++ cs =
      'v' :: 'a' :: 'r' :: ' ' :: (x.toList ++ ' ' :: '=' :: ' ' :: (e.render.toList ++ ';' :: cs)) := by
    simp [bindingText]
  obtain ⟨line', he⟩ := he.full (ends_semicolon cs) line
  rw [htext]
  exact ⟨_, _, line', tok_keyword (w := "var") (by decide) (.cons rfl), (lit_name hx (.cons rfl)).spaced,
    .value (tok_operator rfl).spaced he.spaced⟩

/-- A binding is read back with its semicolon. -/
theorem Stmt.Legible.var (hx : IsName x) (he : e.Legible) : (Stmt.var x e).Legible := by
  intro line cs _ _
  obtain ⟨xs, ys, line', hvar, hx, he⟩ := binding_reads hx he line cs
  exact ⟨line', .var hvar hx he (.there (tok_delimiter rfl rfl))⟩

/-- The canonical text of a named function is read as it, where no semicolon follows. -/
def FunctionDecl.Legible (decl : FunctionDecl) : Prop :=
  ∀ (line : Nat) {cs : List Char}, NoSemicolon cs → ∃ xs line',
    Tok .kwFunc (tokensAt line (decl.render.toList ++ cs)) xs ∧ Reads .greedy .declaration xs decl (tokensAt line' cs)

/-- A declared function is read back as its name and its literal. -/
theorem declaration_legible {literal : FunctionLit} (hx : IsName x)
    (hliteral : Written .function (literal.render "") literal) :
    FunctionDecl.Legible ⟨x, literal, isPublicName x⟩ := by
  obtain ⟨parameters, body⟩ := literal
  intro line cs hcs
  have htext : (FunctionDecl.render ⟨x, ⟨parameters, body⟩, isPublicName x⟩).toList ++ cs =
      'f' :: 'u' :: 'n' :: 'c' :: ' ' :: (x.toList ++ ((FunctionLit.render "" ⟨parameters, body⟩).toList ++ cs)) := by
    show (FunctionLit.render ("func " ++ x) ⟨parameters, body⟩).toList ++ cs = _
    rw [FunctionLit.render_head]
    simp
  have hname : Scan.Stops continuesWord ((FunctionLit.render "" ⟨parameters, body⟩).toList ++ cs) := by
    rw [toList_functionLit]
    exact .cons rfl
  obtain ⟨line', hliteral⟩ := hliteral line cs
  rw [htext]
  exact ⟨_, line', tok_keyword (w := "func") (by decide) (.cons rfl),
    .declaration (lit_name hx hname).spaced hliteral (.missing id fun _ => hcs line')⟩

/-- The word in front of a declaration is not read as that of a literal. -/
theorem Stmt.Legible.function {decl : FunctionDecl} (h : decl.Legible) : (Stmt.function decl).Legible := by
  intro line cs hcs _
  obtain ⟨xs, line', hfunc, hdecl⟩ := h line hcs
  exact ⟨line', .functionDecl hfunc hdecl⟩

/-! ## Classes -/

/-- A parameter is read back, with the receiver in front if it is that of a field. -/
theorem param_reads {p : ConstructorParam} (hp : IsName p.name) (hcs : Separated cs) :
    Param (tokensAt line (p.render.toList ++ cs)) p (tokensAt line cs) := by
  obtain ⟨x, isField⟩ := p
  cases isField with
  | false => exact .name (lit_name hp (stops_word hcs))
  | true =>
    have htext : (ConstructorParam.render ⟨x, true⟩).toList ++ cs =
        't' :: 'h' :: 'i' :: 's' :: '.' :: (x.toList ++ cs) := by
      show ("this." ++ x).toList ++ cs = _
      simp
    rw [htext]
    exact .field (tok_keyword (w := "this") (by decide) (.cons rfl)) (tok_delimiter rfl rfl)
      (lit_name hp (stops_word hcs))

/-- The canonical text of a constructor is read as it. -/
def Constructor.Legible (init : Constructor) : Prop :=
  ∀ (line : Nat) (cs : List Char), ∃ xs line',
    Tok .kwInit (tokensAt line (init.render.toList ++ cs)) xs ∧ Reads .greedy .constructor xs init (tokensAt line' cs)

/-- A constructor is read back as its parameters and its body. -/
theorem constructor_legible {params : List ConstructorParam} (hparams : ∀ p ∈ params, IsName p.name)
    (hbody : LegibleBlock body) : Constructor.Legible ⟨params, body⟩ := by
  intro line cs
  have htext : (Constructor.render ⟨params, body⟩).toList ++ cs = 'I' :: 'n' :: 'i' :: 't' :: '(' ::
      ((commas (params.map ConstructorParam.render)).toList ++
        ')' :: ' ' :: ((braces (renderBlock body)).toList ++ cs)) := by
    show ("Init" ++ parens (commas (params.map ConstructorParam.render)) ++ " " ++
      braces (renderBlock body)).toList ++ cs = _
    simp [parens]
  obtain ⟨line', hbody⟩ := hbody.written line cs
  rw [htext]
  refine ⟨_, line', tok_keyword (w := "Init") (by decide) (.cons rfl),
    .constructor ⟨_, tok_delimiter rfl rfl, items_written fun p hp cs hcs => ?_⟩ hbody.spaced⟩
  exact param_reads (hparams p hp) hcs

/-- The fields of a class, before its further members. -/
theorem fields_read {fields : List FieldDecl} (hfields : ∀ f ∈ fields, IsName f.name ∧ f.value.Legible) (line : Nat)
    (cs : List Char) :
    ∃ line', ∀ {ms : List Member} {zs : List Token}, Reads .greedy .members (tokensAt line' cs) ms zs →
      Reads .greedy .members (tokensAt line ((renderFields fields).toList ++ cs)) (fields.map .field ++ ms) zs := by
  induction fields generalizing line with
  | nil => exact ⟨line, id⟩
  | cons f fields ih =>
    obtain ⟨x, e⟩ := f
    obtain ⟨⟨hx, he⟩, hfields⟩ := List.forall_mem_cons.1 hfields
    have htext : (renderFields (⟨x, e⟩ :: fields)).toList ++ cs =
        (bindingText x e).toList ++ ((renderFields fields).toList ++ cs) := by
      show (bindingText x e ++ renderFields fields).toList ++ cs = _
      rw [String.toList_append, List.append_assoc]
    obtain ⟨xs, ys, line₁, hvar, hx, he⟩ := binding_reads hx he line ((renderFields fields).toList ++ cs)
    obtain ⟨line₂, hfields⟩ := ih hfields line₁
    refine ⟨line₂, fun hms => ?_⟩
    rw [htext]
    exact .members (.field hvar hx he (.there (tok_delimiter rfl rfl))) (hfields hms)

/-- The constructor of a class, before its further members. -/
theorem constructor_reads {init : Option Constructor} (hinit : ∀ c ∈ init, c.Legible) (line : Nat) (cs : List Char) :
    ∃ line', ∀ {ms : List Member} {zs : List Token}, Reads .greedy .members (tokensAt line' cs) ms zs →
      Reads .greedy .members (tokensAt line ((renderConstructor init).toList ++ cs)) (init.toList.map .init ++ ms)
        zs := by
  cases init with
  | none => exact ⟨line, id⟩
  | some c =>
    obtain ⟨xs, line', htok, hc⟩ := hinit c rfl line cs
    exact ⟨line', fun hms => .members (.init htok hc) hms⟩

/-- The methods of a class, up to its end. -/
theorem methods_read {methods : List FunctionDecl} (hmethods : ∀ m ∈ methods, m.Legible) (line : Nat) (cs : List Char) :
    ∃ line', Reads .greedy .members (tokensAt line ((renderMethods methods).toList ++ '\x7d' :: cs))
      (methods.map .method) (tokensAt line' ('\x7d' :: cs)) := by
  induction methods generalizing line with
  | nil => exact ⟨line, .noMembers⟩
  | cons m methods ih =>
    obtain ⟨hm, hmethods⟩ := List.forall_mem_cons.1 hmethods
    have htext : (renderMethods (m :: methods)).toList ++ '\x7d' :: cs =
        m.render.toList ++ ((renderMethods methods).toList ++ '\x7d' :: cs) := by
      show (m.render ++ renderMethods methods).toList ++ '\x7d' :: cs = _
      rw [String.toList_append, List.append_assoc]
    -- what comes next is a method or the end of the class
    have hnext : NoSemicolon ((renderMethods methods).toList ++ '\x7d' :: cs) := by
      intro line hk
      obtain ⟨line', hmethods⟩ := ih hmethods line
      generalize tokensAt line ((renderMethods methods).toList ++ '\x7d' :: cs) = xs at hmethods hk
      cases methods with
      | nil =>
        cases hmethods
        rw [(tok_delimiter (k := .rbrace) rfl rfl).kindOf_eq] at hk
        cases hk
      | cons m' methods =>
        cases hmethods with
        | members h =>
          cases h with
          | method hfunc =>
            rw [hfunc.kindOf_eq] at hk
            cases hk
    obtain ⟨xs, line₁, hfunc, hm⟩ := hm line hnext
    obtain ⟨line₂, hmethods⟩ := ih hmethods line₁
    rw [htext]
    exact ⟨line₂, .members (.method hfunc hm) hmethods⟩

/-- Fields of a class are members that were read; so are its methods and constructors. -/
theorem mem_of_field {ms : List Member} {f : FieldDecl} (h : f ∈ ms.filterMap Member.field?) : .field f ∈ ms := by
  obtain ⟨m, hm, hf⟩ := List.mem_filterMap.1 h
  cases m with
  | field f' =>
    cases hf
    exact hm
  | method | init | empty => cases hf

theorem mem_of_method {ms : List Member} {m : FunctionDecl} (h : m ∈ ms.filterMap Member.method?) : .method m ∈ ms := by
  obtain ⟨m', hm', hm⟩ := List.mem_filterMap.1 h
  cases m' with
  | method m' =>
    cases hm
    exact hm'
  | field | init | empty => cases hm

theorem mem_of_init {ms : List Member} {c : Constructor} (h : c ∈ ms.filterMap Member.init?) : .init c ∈ ms := by
  obtain ⟨m, hm, hc⟩ := List.mem_filterMap.1 h
  cases m with
  | init c' =>
    cases hc
    exact hm
  | field | method | empty => cases hc

/-- The members of a class in the order of its canonical text. -/
def ClassDecl.members (decl : ClassDecl) : List Member :=
  decl.fields.map .field ++ (decl.init.toList.map .init ++ decl.methods.map .method)

/-- A class has the members that are written for it. -/
theorem ClassDecl.ofMembers_members (decl : ClassDecl) : .ofMembers decl.name decl.members = decl := by
  obtain ⟨name, fields, methods, init⟩ := decl
  rw [ClassDecl.ofMembers, ClassDecl.mk.injEq]
  refine ⟨rfl, ?_, ?_, ?_⟩
  all_goals simp [ClassDecl.members, Function.comp_def, Member.field?, Member.method?, Member.init?]

theorem ClassDecl.init_members (decl : ClassDecl) : (decl.members.filterMap Member.init?).length ≤ 1 := by
  have hinit : decl.members.filterMap Member.init? = decl.init.toList := by
    simp [ClassDecl.members, Function.comp_def, Member.init?]
  rw [hinit]
  cases decl.init <;> simp

/-- A class is read back as its fields, its constructor and its methods, in this order. -/
theorem Stmt.Legible.classDecl {decl : ClassDecl} (hname : IsName decl.name)
    (hfields : ∀ f ∈ decl.fields, IsName f.name ∧ f.value.Legible) (hinit : ∀ c ∈ decl.init, c.Legible)
    (hmethods : ∀ m ∈ decl.methods, m.Legible) : (Stmt.classDecl decl).Legible := by
  intro line cs _ _
  have hmembers := decl.ofMembers_members
  have hinits := decl.init_members
  obtain ⟨name, fields, methods, init⟩ := decl
  have htext : (Stmt.classDecl ⟨name, fields, methods, init⟩).render.toList ++ cs =
      'c' :: 'l' :: 'a' :: 's' :: 's' :: ' ' :: (name.toList ++ ' ' :: '\x7b' :: ((renderFields fields).toList ++
        ((renderConstructor init).toList ++ ((renderMethods methods).toList ++ '\x7d' :: cs)))) := by
    show ("class " ++ name ++ " " ++
      braces (renderFields fields ++ renderConstructor init ++ renderMethods methods)).toList ++ cs = _
    simp [braces]
  obtain ⟨line₁, hfields⟩ := fields_read hfields line
    ((renderConstructor init).toList ++ ((renderMethods methods).toList ++ '\x7d' :: cs))
  obtain ⟨line₂, hinit⟩ := constructor_reads hinit line₁ ((renderMethods methods).toList ++ '\x7d' :: cs)
  obtain ⟨line₃, hmethods⟩ := methods_read hmethods line₂ cs
  have hreads := hfields (hinit hmethods)
  rw [htext, ← hmembers]
  exact ⟨line₃, .classDecl (tok_keyword (w := "class") (by decide) (.cons rfl)) (lit_name hname (.cons rfl)).spaced
    (tok_delimiter rfl rfl).spaced hreads (tok_delimiter rfl rfl) hinits⟩

/-! ## All trees -/

/-- What is true of a member of a class when it is plain. -/
def LegibleMember : Member → Prop
  | .field f => f.isPlain → IsName f.name ∧ f.value.Legible
  | .method m => m.isPlain → m.Legible
  | .init c => c.isPlain → c.Legible
  | .empty => True

/-- What is true of the trees of a kind when they are plain. -/
def LegibleTree : (c : Category) → c.Tree → Prop
  | .expr, e | .initial, e | .result, e => e.isPlain → e.Legible
  | .exprs, es => plainExprs es → ∀ e ∈ es, e.Legible
  | .pairs, pairs => plainPairs pairs → ∀ p ∈ pairs, p.key.Legible ∧ p.value.Legible
  | .branch, b => b.isPlain → Written .branch b.render b
  | .branches, bs => plainBranches bs → ∀ b ∈ bs, Written .branch b.render b
  | .otherwise, last => plainOtherwise last → ∀ body ∈ last, LegibleBlock body
  | .literal, literal => literal.isPlain → Written .function (literal.render "") literal
  | .decl, decl => decl.isPlain → decl.Legible
  | .constructor, c => c.isPlain → c.Legible
  | .member, m => LegibleMember m
  | .members, ms => ∀ m ∈ ms, LegibleMember m
  | .stmt, s => s.isPlain → s.Legible
  | .stmts, body => plainBlock body → LegibleBlock body

/-- A tree that is spelled in the words of a source is legible when it is plain. -/
theorem Spells.legible {c : Category} {tree : c.Tree} {us : List Word} (h : Spells c tree us)
    (hus : ∀ w ∈ us, w.Lexed) : LegibleTree c tree := by
  induction h with
  -- expressions
  | name => exact fun _ => .name (hus _ (List.mem_singleton_self _))
  | thisName => exact fun _ => .thisName (hus _ (List.mem_singleton_self _))
  | integer hread => exact fun _ => .integer (hus _ (List.mem_singleton_self _)) hread
  | real hread =>
    intro hplain
    obtain ⟨parts, hview⟩ := Double.exists_view_of_parts? hplain
    exact .real (Double.text_decimal (hus _ (List.mem_singleton_self _)) hread hview) (Double.read?_text hview)
  | text => exact fun _ => .text (hus _ (List.mem_singleton_self _))
  | boolean => exact fun _ => .boolean _
  | increment => exact fun _ => .increment (hus _ (List.mem_cons_self ..))
  | decrement => exact fun _ => .decrement (hus _ (List.mem_cons_self ..))
  | unary _ _ ih =>
    intro hplain
    exact .unary _ (ih (List.forall_mem_cons.1 hus).2 hplain)
  | binary _ _ _ ih ih' =>
    intro hplain
    rw [List.forall_mem_append, List.forall_mem_cons] at hus
    obtain ⟨hl, hr⟩ := Bool.and_eq_true_iff.1 hplain
    exact .binary _ (ih hus.1 hl) (ih' hus.2.2 hr)
  | conditional _ _ _ ih ih' ih'' =>
    intro hplain
    rw [List.forall_mem_append, List.forall_mem_append] at hus
    obtain ⟨hbranches, hlast⟩ := Bool.and_eq_true_iff.1 hplain
    obtain ⟨hfirst, hmore⟩ := Bool.and_eq_true_iff.1 hbranches
    refine .conditional ?_ (ih'' hus.2.2 hlast)
    exact List.forall_mem_cons.2 ⟨ih hus.1 hfirst, ih' hus.2.1 hmore⟩
  | function _ ih =>
    intro hplain
    exact .function (ih hus hplain)
  | call _ _ ih ih' =>
    intro hplain
    rw [List.forall_mem_append] at hus
    obtain ⟨hf, hes⟩ := Bool.and_eq_true_iff.1 hplain
    exact .call (ih hus.1 hf) (ih' hus.2 hes)
  | index _ _ ih ih' =>
    intro hplain
    rw [List.forall_mem_append] at hus
    obtain ⟨hl, hi⟩ := Bool.and_eq_true_iff.1 hplain
    exact .index (ih hus.1 hl) (ih' hus.2 hi)
  | array _ ih =>
    intro hplain
    exact .array (ih hus hplain)
  | hash _ ih =>
    intro hplain
    exact .hash (ih hus hplain)
  | rangeFor _ _ _ ih ih' ih'' =>
    intro hplain
    rw [List.forall_mem_cons, List.forall_mem_append, List.forall_mem_append] at hus
    obtain ⟨hrange, hbody⟩ := Bool.and_eq_true_iff.1 hplain
    obtain ⟨hstart, hstop⟩ := Bool.and_eq_true_iff.1 hrange
    exact .rangeFor hus.1 (ih hus.2.1 hstart) (ih' hus.2.2.1 hstop) (ih'' hus.2.2.2 hbody)
  | collectionFor _ ih =>
    intro hplain
    rw [List.forall_mem_cons, List.forall_mem_cons] at hus
    exact .collectionFor hus.1 hus.2.1 (ih hus.2.2 hplain)
  | new _ ih =>
    intro hplain
    rw [List.forall_mem_cons] at hus
    exact .new hus.1 (ih hus.2 hplain)
  | methodCall _ ih =>
    intro hplain
    rw [List.forall_mem_cons, List.forall_mem_cons] at hus
    exact .methodCall hus.1 hus.2.1 (ih hus.2.2 hplain)
  -- their parts
  | noExprs => exact fun _ => nofun
  | exprs _ _ ih ih' =>
    intro hplain
    rw [List.forall_mem_append] at hus
    obtain ⟨he, hes⟩ := Bool.and_eq_true_iff.1 hplain
    exact List.forall_mem_cons.2 ⟨ih hus.1 he, ih' hus.2 hes⟩
  | noPairs => exact fun _ => nofun
  | pairs _ _ _ ih ih' ih'' =>
    intro hplain
    rw [List.forall_mem_append, List.forall_mem_append] at hus
    obtain ⟨hpair, hpairs⟩ := Bool.and_eq_true_iff.1 hplain
    obtain ⟨hkey, hvalue⟩ := Bool.and_eq_true_iff.1 hpair
    exact List.forall_mem_cons.2 ⟨⟨ih hus.1 hkey, ih' hus.2.1 hvalue⟩, ih'' hus.2.2 hpairs⟩
  | branch _ _ ih ih' =>
    intro hplain
    rw [List.forall_mem_append] at hus
    obtain ⟨he, hbody⟩ := Bool.and_eq_true_iff.1 hplain
    exact branch_written (ih hus.1 he) (ih' hus.2 hbody)
  | noBranches => exact fun _ => nofun
  | branches _ _ ih ih' =>
    intro hplain
    rw [List.forall_mem_append] at hus
    obtain ⟨hb, hbs⟩ := Bool.and_eq_true_iff.1 hplain
    exact List.forall_mem_cons.2 ⟨ih hus.1 hb, ih' hus.2 hbs⟩
  | noElse => exact fun _ => nofun
  | «else» _ ih =>
    rintro hplain _ ⟨⟩
    exact ih hus hplain
  | functionLit _ ih =>
    intro hplain
    rw [List.forall_mem_append, List.forall_mem_map] at hus
    exact functionLit_written hus.1 (ih hus.2 hplain)
  | noValue => exact fun hplain => absurd hplain Bool.false_ne_true
  | value _ ih => exact ih (List.forall_mem_cons.1 hus).2
  | noResult => exact fun hplain => absurd hplain Bool.false_ne_true
  | result _ ih => exact ih hus
  -- statements
  | var _ ih =>
    intro hplain
    rw [List.forall_mem_cons] at hus
    exact .var hus.1 (ih hus.2 hplain)
  | ret _ ih =>
    intro hplain
    exact .ret (ih hus hplain)
  | expr _ ih =>
    intro hplain
    exact .expr (ih hus hplain)
  | functionDecl _ ih =>
    intro hplain
    exact .function (ih hus hplain)
  | @classDecl name members _ _ _ ih =>
    intro hplain
    rw [List.forall_mem_cons] at hus
    have ih := ih hus.2
    obtain ⟨hplain, hmethods⟩ := Bool.and_eq_true_iff.1 hplain
    obtain ⟨hfields, hinit⟩ := Bool.and_eq_true_iff.1 hplain
    refine .classDecl hus.1 (fun f hf => ?_) (fun c hc => ?_) fun m hm => ?_
    · exact ih _ (mem_of_field hf) (plainFields_iff.1 hfields f hf)
    · have hinit : plainConstructor (ClassDecl.ofMembers name members).init := hinit
      rw [hc] at hinit
      exact ih _ (mem_of_init (List.mem_of_head? hc)) hinit
    · exact ih _ (mem_of_method hm) (plainMethods_iff.1 hmethods m hm)
  | noStatements => exact fun _ => legibleBlock_nil
  | statements _ _ ih ih' =>
    intro hplain
    rw [List.forall_mem_append] at hus
    obtain ⟨hplain, hrest⟩ := Bool.and_eq_true_iff.1 hplain
    obtain ⟨hs, hlast⟩ := Bool.and_eq_true_iff.1 hplain
    refine legibleBlock_cons (ih hus.1 hs) (fun hexpr => ?_) (ih' hus.2 hrest)
    rw [hexpr] at hlast
    exact List.isEmpty_iff.1 hlast
  | declaration _ ih =>
    intro hplain
    rw [List.forall_mem_cons] at hus
    exact declaration_legible hus.1 (ih hus.2 hplain)
  -- members of classes
  | constructor _ ih =>
    intro hplain
    rw [List.forall_mem_append, List.forall_mem_map] at hus
    exact constructor_legible hus.1 (ih hus.2 hplain)
  | field _ ih =>
    intro hplain
    rw [List.forall_mem_cons] at hus
    exact ⟨hus.1, ih hus.2 hplain⟩
  | method _ ih => exact ih hus
  | init _ ih => exact ih hus
  | empty => exact trivial
  | noMembers => exact nofun
  | members _ _ ih ih' =>
    rw [List.forall_mem_append] at hus
    exact List.forall_mem_cons.2 ⟨ih hus.1, ih' hus.2⟩

/-- The canonical text of a plain program that a source is read as without errors is read as the same program. -/
theorem parseSource_render (source : String) (hsource : (parseSource source).errors = [])
    (hplain : plainBlock (parseSource source).program) :
    parseSource (renderBlock (parseSource source).program) = ⟨(parseSource source).program, []⟩ := by
  obtain ⟨rest, hprogram, _⟩ := parse_reads hsource
  obtain ⟨us, ⟨ts, htokens, _, rfl⟩, hspells⟩ := hprogram.passes
  have hus : ∀ w ∈ words ts, w.Lexed := by
    intro w hw
    refine scan_lexed source w ?_
    rw [htokens, words, List.filterMap_append]
    exact List.mem_append_left _ hw
  obtain ⟨line, hreads⟩ := hspells.legible hus hplain 1 (.inl rfl)
  rw [List.append_nil] at hreads
  refine hreads.parse_eq ?_
  rw [tokensAt_nil]
  rfl

/-- A plain program with a class whose method comes first, a string of two lines, and operators with no parentheses. -/
def plainSource : String :=
  "class C \x7b func f() \x7b return 0.5 \x7d var n = -1 \x7d if (a) \x7b b(\"x
\")(y--) \x7d else \x7b \x7b1: [a * 2 + 1][0]\x7d \x7d"

theorem plainSource_render : (parseSource plainSource).errors = [] ∧ plainBlock (parseSource plainSource).program ∧
    parseSource (renderBlock (parseSource plainSource).program) = ⟨(parseSource plainSource).program, []⟩ := by
  have hsource : (parseSource plainSource).errors = [] := by decide +kernel
  have hplain : plainBlock (parseSource plainSource).program := by decide +kernel
  exact ⟨hsource, hplain, parseSource_render plainSource hsource hplain⟩

end Pron
