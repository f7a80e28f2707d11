import Pron.Syntax.Parse

/-!
# The grammar

`Reads rules phrase xs tree ys` says that a list of tokens `xs` starts with a phrase of the grammar, that `tree` is the
tree of a derivation of it, and that `ys` is what comes after it. The productions are those of the language:

    program     = statement*
    statement   = "var" name ("=" expression)? ";"? | "return" expression? ";"? | "func" name function ";"?
                | "class" name "{" member* "}" | expression ";"?
    member      = "var" name ("=" expression)? ";"? | "func" name function ";"? | "Init" "(" params ")" block | ";"
    function    = "(" names ")" block
    block       = "{" statement* "}"
    expression  = operand (operator expression | "(" args ")" | "[" expression "]")*
    operand     = name | name "++" | name "--" | name "." name "(" args ")" | "this" "." name
                | integer | real | string | "true" | "false" | "!" expression | "-" expression | "(" expression ")"
                | "if" branch ("elif" branch)* ("else" block)? | "func" function | "[" args "]" | "{" pairs "}"
                | "for" "(" name "from" expression "to" expression ")" block
                | "for" "(" name "in" name ")" block | "new" name "(" args ")"
    branch      = "(" expression ")" block
    pairs       = (expression ":" expression ("," expression ":" expression)* ","?)?

They leave open how operators group and where a phrase ends. `Rules.longest` adds the conventions that settle this, the
levels of the operators and the longest reading; `Rules.closed` asks for the semicolons that may be left out.
-/

namespace Pron

namespace Grammar

open Step (kindOf)

/-! ## Tokens -/

/-- The tokens start with one of a kind and a literal. -/
def Lit (k : TokenKind) (x : String) (xs ys : List Token) : Prop := ∃ line, xs = ⟨k, x, line⟩ :: ys

/-- The tokens start with one of a kind. -/
def Tok (k : TokenKind) (xs ys : List Token) : Prop := ∃ x, Lit k x xs ys

/-- The operator between operands that a kind of token stands for. -/
def binary? (k : TokenKind) : Option BinaryOp :=
  match Continuation.ofKind? k with
  | some (.operator op) => some op
  | _ => none

/-- The operator before an operand that a kind of token stands for. -/
def unary? : TokenKind → Option UnaryOp
  | .bang => some .not
  | .minus => some .negate
  | _ => none

/-- An expression whose operators bind more strongly than `p` is not continued here. -/
def Stops (p : Precedence) (xs : List Token) : Prop :=
  ∀ c, Continuation.ofKind? (kindOf xs) = some c → ¬p < c.precedence

/-- An expression stops in front of what continues none. -/
theorem stops_of_eq_none {p : Precedence} {xs : List Token} (h : Continuation.ofKind? (kindOf xs) = none) :
    Stops p xs := by
  intro c hc
  rw [h] at hc
  cases hc

/-- In front of an operator an expression stops if it does not bind tighter than the level. -/
theorem stops_iff {p : Precedence} {xs : List Token} {c : Continuation}
    (h : Continuation.ofKind? (kindOf xs) = some c) : Stops p xs ↔ ¬p < c.precedence := by
  unfold Stops
  rw [h]
  simp

/-! ## Lists -/

section Lists

variable {α : Type} (item : List Token → α → List Token → Prop)

/-- Further items of a list, each behind a comma. -/
inductive Further : List Token → List α → List Token → Prop
  | nil {xs : List Token} : Further xs [] xs
  | cons {xs ys zs ws : List Token} {a : α} {as : List α} : Tok .comma xs ys → item ys a zs → Further zs as ws →
      Further xs (a :: as) ws

/-- Items with commas between them, and a closing token. -/
inductive Items (close : TokenKind) : List Token → List α → List Token → Prop
  | none {xs ys : List Token} : Tok close xs ys → Items close xs [] ys
  | some {xs ys zs ws : List Token} {a : α} {as : List α} : item xs a ys → Further item ys as zs → Tok close zs ws →
      Items close xs (a :: as) ws

end Lists

/-- The names of parameters, in parentheses. -/
def Parameters (xs : List Token) (names : List String) (zs : List Token) : Prop :=
  ∃ ys, Tok .lparen xs ys ∧ Items (fun xs x ys => Lit .ident x xs ys) .rparen ys names zs

/-- A parameter of a constructor. -/
inductive Param : List Token → ConstructorParam → List Token → Prop
  | name {x : String} {xs ys : List Token} : Lit .ident x xs ys → Param xs ⟨x, false⟩ ys
  | field {x : String} {xs ys zs ws : List Token} : Tok .kwThis xs ys → Tok .dot ys zs → Lit .ident x zs ws →
      Param xs ⟨x, true⟩ ws

/-- The parameters of a constructor, in parentheses. -/
def Params (xs : List Token) (params : List ConstructorParam) (zs : List Token) : Prop :=
  ∃ ys, Tok .lparen xs ys ∧ Items Param .rparen ys params zs

end Grammar

/-! ## Classes -/

/-- What the body of a class lists. -/
inductive Member
  | field (decl : FieldDecl)
  | method (decl : FunctionDecl)
  | init (constructor : Constructor)
  | empty

namespace Member

/-- The field that a member declares. -/
def field? : Member → Option FieldDecl
  | field decl => some decl
  | _ => none

/-- The method that a member declares. -/
def method? : Member → Option FunctionDecl
  | method decl => some decl
  | _ => none

/-- The constructor that a member declares. -/
def init? : Member → Option Constructor
  | init constructor => some constructor
  | _ => none

end Member

/-- The class with the given members. -/
def ClassDecl.ofMembers (name : String) (members : List Member) : ClassDecl where
  name := name
  fields := members.filterMap Member.field?
  methods := members.filterMap Member.method?
  init := (members.filterMap Member.init?).head?

/-- A class and what further members make of it. -/
structure ClassDecl.Adds (decl : ClassDecl) (members : List Member) (decl' : ClassDecl) : Prop where
  name : decl'.name = decl.name
  fields : decl'.fields = decl.fields ++ members.filterMap Member.field?
  methods : decl'.methods = decl.methods ++ members.filterMap Member.method?
  init : decl'.init.toList = decl.init.toList ++ members.filterMap Member.init?

namespace ClassDecl.Adds

variable {decl decl' decl'' : ClassDecl} {members members' : List Member} {name : String}

theorem refl (decl : ClassDecl) : decl.Adds [] decl := ⟨rfl, by simp, by simp, by simp⟩

/-- Members that are added one after the other are added together. -/
theorem trans (h : decl.Adds members decl') (h' : decl'.Adds members' decl'') :
    decl.Adds (members ++ members') decl'' where
  name := h'.name.trans h.name
  fields := by rw [h'.fields, h.fields, List.filterMap_append, List.append_assoc]
  methods := by rw [h'.methods, h.methods, List.filterMap_append, List.append_assoc]
  init := by rw [h'.init, h.init, List.filterMap_append, List.append_assoc]

section Members

variable {f : FieldDecl} {m : FunctionDecl} {c : Constructor}

/-- A field is added behind the others; so is a method. -/
theorem ofField : decl.Adds [.field f] { decl with fields := decl.fields ++ [f] } :=
  ⟨rfl, rfl, by simp [Member.method?], by simp [Member.init?]⟩

theorem ofMethod : decl.Adds [.method m] { decl with methods := decl.methods ++ [m] } :=
  ⟨rfl, by simp [Member.field?], rfl, by simp [Member.init?]⟩

/-- A class without a constructor gets one. -/
theorem ofInit (h : decl.init = none) : decl.Adds [.init c] { decl with init := some c } :=
  ⟨rfl, by simp [Member.field?], by simp [Member.method?], by rw [h]; rfl⟩

theorem ofEmpty : decl.Adds [.empty] decl :=
  ⟨rfl, by simp [Member.field?], by simp [Member.method?], by simp [Member.init?]⟩

/-- Nothing has been there before a constructor. -/
theorem init_eq_none (h : decl.Adds [.init c] decl') : decl.init = none := by
  have hinit := congrArg List.length h.init
  cases hdecl : decl.init with
  | none => rfl
  | some _ =>
    rw [hdecl] at hinit
    cases hdecl' : decl'.init <;> simp [hdecl', Member.init?] at hinit

end Members

/-- What members make of a class is settled by them. -/
theorem unique (h : decl.Adds members decl') (h' : decl.Adds members decl'') : decl' = decl'' := by
  obtain ⟨_, _, _, _⟩ := decl'
  obtain ⟨_, _, _, _⟩ := decl''
  rw [ClassDecl.mk.injEq]
  refine ⟨h.name.trans h'.name.symm, h.fields.trans h'.fields.symm, h.methods.trans h'.methods.symm, ?_⟩
  have hinit := congrArg List.head? (h.init.trans h'.init.symm)
  rwa [Option.head?_toList, Option.head?_toList] at hinit

/-- At most one constructor is all there is. -/
theorem toList_head? {inits : List Constructor} (h : inits.length ≤ 1) : inits.head?.toList = inits := by
  match inits, h with
  | [], _ => rfl
  | [_], _ => rfl

/-- Members are added one after the other. -/
theorem cons {member : Member} (h : decl.Adds (member :: members) decl'') :
    ∃ decl', decl.Adds [member] decl' ∧ decl'.Adds members decl'' := by
  have hsplit {β : Type} (f : Member → Option β) (bs : List β) :
      bs ++ (member :: members).filterMap f = bs ++ [member].filterMap f ++ members.filterMap f := by
    rw [List.append_assoc, ← List.filterMap_append]
    rfl
  have hlength : (decl.init.toList ++ [member].filterMap Member.init?).length ≤ 1 := by
    have hall : decl''.init.toList.length ≤ 1 := by cases decl''.init <;> simp
    rw [h.init, hsplit, List.length_append] at hall
    exact Nat.le_trans (Nat.le_add_right _ _) hall
  have hinit := toList_head? hlength
  refine ⟨⟨_, _, _, (decl.init.toList ++ [member].filterMap Member.init?).head?⟩, ⟨rfl, rfl, rfl, hinit⟩, h.name,
    ?_, ?_, ?_⟩
  · rw [h.fields, hsplit]
  · rw [h.methods, hsplit]
  · rw [h.init, hsplit, hinit]

/-- A class without members becomes the class of its members, if these have one constructor at most. -/
theorem ofMembers (h : (members.filterMap Member.init?).length ≤ 1) :
    ClassDecl.Adds ⟨name, [], [], none⟩ members (.ofMembers name members) := ⟨rfl, rfl, rfl, toList_head? h⟩

/-- A class with no members but these has at most one constructor. -/
theorem eq_ofMembers (h : ClassDecl.Adds ⟨name, [], [], none⟩ members decl) :
    decl = .ofMembers name members ∧ (members.filterMap Member.init?).length ≤ 1 := by
  obtain ⟨name', fields, methods, init⟩ := decl
  obtain ⟨hname, hfields, hmethods, hinit⟩ := h
  simp only [Option.toList_none, List.nil_append] at hname hfields hmethods hinit
  subst hname hfields hmethods
  rw [ClassDecl.ofMembers, ← hinit]
  cases init with
  | none => exact ⟨rfl, Nat.zero_le _⟩
  | some init => exact ⟨rfl, Nat.le_refl _⟩

end ClassDecl.Adds

/-! ## Phrases -/

/-- The kinds of trees. -/
inductive Category
  | expr | exprs | pairs | branch | branches | otherwise | initial | result
  | literal | decl | constructor | member | members | stmt | stmts
  deriving DecidableEq

namespace Category

/-- The trees of a kind. -/
@[reducible]
def Tree : Category → Type
  | expr | initial | result => Expr
  | exprs => List Expr
  | pairs => List KeyValue
  | branch => Branch
  | branches => List Branch
  | otherwise => Option (List Stmt)
  | literal => FunctionLit
  | decl => FunctionDecl
  | constructor => Constructor
  | member => Member
  | members => List Member
  | stmt => Stmt
  | stmts => List Stmt

end Category

/-- The nonterminals of the grammar. -/
inductive Phrase
  /-- an expression whose operators bind more strongly than `p` -/
  | expression (p : Precedence)
  | operand
  /-- what follows on `left` in such an expression -/
  | chain (p : Precedence) (left : Expr)
  | arguments
  | furtherArguments
  | pairs
  | branch
  | furtherBranches
  | otherwise
  /-- the value of a `var`, from the `=` on -/
  | initial
  /-- the value of a `return` -/
  | result
  | function
  | declaration
  | constructor
  | member
  | members
  | statement
  | statements
  | block

namespace Phrase

/-- The kind of the trees of a phrase. -/
@[reducible]
def category : Phrase → Category
  | expression _ | operand | chain _ _ => .expr
  | arguments | furtherArguments => .exprs
  | pairs => .pairs
  | branch => .branch
  | furtherBranches => .branches
  | otherwise => .otherwise
  | initial => .initial
  | result => .result
  | function => .literal
  | declaration => .decl
  | constructor => .constructor
  | member => .member
  | members => .members
  | statement => .stmt
  | statements | block => .stmts

/-- The trees of a phrase. -/
abbrev Tree (phrase : Phrase) : Type := phrase.category.Tree

end Phrase

/-- What is asked of a derivation beyond the productions. -/
structure Rules where
  /-- Operators group by their levels, and every phrase is read as far as it goes. -/
  longest : Prop
  /-- `var`, `return` and expression statements end with a semicolon. -/
  closed : Prop

namespace Rules

/-- How the parser reads. -/
abbrev greedy : Rules := ⟨True, False⟩

/-- The productions alone, with the semicolons that may be left out. -/
abbrev closing : Rules := ⟨False, True⟩

end Rules

namespace Grammar

open Step (kindOf)

/-- The semicolon at the end of a statement. -/
inductive Semicolon (rules : Rules) (needed : Prop) : List Token → List Token → Prop
  | there {xs ys : List Token} : Tok .semicolon xs ys → Semicolon rules needed xs ys
  | missing {xs : List Token} : ¬needed → (rules.longest → kindOf xs ≠ .semicolon) → Semicolon rules needed xs xs

/-- The tokens start with a phrase of the grammar. -/
inductive Reads (rules : Rules) : (phrase : Phrase) → List Token → phrase.Tree → List Token → Prop
  -- expressions
  | expression {p : Precedence} {l e : Expr} {xs ys zs : List Token} : Reads rules .operand xs l ys →
      Reads rules (.chain p l) ys e zs → Reads rules (.expression p) xs e zs
  | stop {p : Precedence} {l : Expr} {xs : List Token} : (rules.longest → Stops p xs) →
      Reads rules (.chain p l) xs l xs
  | operator {p : Precedence} {op : BinaryOp} {k : TokenKind} {l r e : Expr} {xs ys zs ws : List Token} :
      binary? k = some op → (rules.longest → p < op.precedence) → Tok k xs ys →
      Reads rules (.expression op.precedence) ys r zs → Reads rules (.chain p (.binary op l r)) zs e ws →
      Reads rules (.chain p l) xs e ws
  | call {p : Precedence} {l e : Expr} {arguments : List Expr} {xs ys zs us ws : List Token} :
      (rules.longest → p < .call) → Tok .lparen xs ys → Reads rules .arguments ys arguments zs → Tok .rparen zs us →
      Reads rules (.chain p (.call l arguments)) us e ws → Reads rules (.chain p l) xs e ws
  | index {p : Precedence} {l i e : Expr} {xs ys zs us ws : List Token} : (rules.longest → p < .index) →
      Tok .lbracket xs ys → Reads rules (.expression .lowest) ys i zs → Tok .rbracket zs us →
      Reads rules (.chain p (.index l i)) us e ws → Reads rules (.chain p l) xs e ws
  -- operands
  | name {x : String} {xs ys : List Token} : Lit .ident x xs ys →
      (rules.longest → kindOf ys ≠ .dot ∧ kindOf ys ≠ .increment ∧ kindOf ys ≠ .decrement) →
      Reads rules .operand xs (.name x) ys
  | increment {x : String} {xs ys zs : List Token} : Lit .ident x xs ys → Tok .increment ys zs →
      Reads rules .operand xs (.increment x) zs
  | decrement {x : String} {xs ys zs : List Token} : Lit .ident x xs ys → Tok .decrement ys zs →
      Reads rules .operand xs (.decrement x) zs
  | methodCall {object method : String} {arguments : List Expr} {xs₀ xs₁ xs₂ xs₃ xs₄ xs₅ xs₆ : List Token} :
      Lit .ident object xs₀ xs₁ → Tok .dot xs₁ xs₂ → Lit .ident method xs₂ xs₃ → Tok .lparen xs₃ xs₄ →
      Reads rules .arguments xs₄ arguments xs₅ → Tok .rparen xs₅ xs₆ →
      Reads rules .operand xs₀ (.methodCall object method arguments) xs₆
  | thisName {x : String} {xs ys zs ws : List Token} : Tok .kwThis xs ys → Tok .dot ys zs → Lit .ident x zs ws →
      Reads rules .operand xs (.thisName x) ws
  | integer {x : String} {n : Int64} {xs ys : List Token} : Lit .int x xs ys → Integer.read? x = some n →
      Reads rules .operand xs (.integer n) ys
  | real {x : String} {r : Float} {xs ys : List Token} : Lit .real x xs ys → Double.read? x = some r →
      Reads rules .operand xs (.real r) ys
  | text {x : String} {xs ys : List Token} : Lit .str x xs ys → Reads rules .operand xs (.text x) ys
  | true {xs ys : List Token} : Tok .kwTrue xs ys → Reads rules .operand xs (.boolean true) ys
  | false {xs ys : List Token} : Tok .kwFalse xs ys → Reads rules .operand xs (.boolean false) ys
  | unary {op : UnaryOp} {k : TokenKind} {e : Expr} {xs ys zs : List Token} : unary? k = some op → Tok k xs ys →
      Reads rules (.expression .unary) ys e zs → Reads rules .operand xs (.unary op e) zs
  | group {e : Expr} {xs ys zs ws : List Token} : Tok .lparen xs ys → Reads rules (.expression .lowest) ys e zs →
      Tok .rparen zs ws → Reads rules .operand xs e ws
  | conditional {first : Branch} {more : List Branch} {last : Option (List Stmt)} {xs ys zs us ws : List Token} :
      Tok .kwIf xs ys → Reads rules .branch ys first zs → Reads rules .furtherBranches zs more us →
      Reads rules .otherwise us last ws → Reads rules .operand xs (.conditional (first :: more) last) ws
  | function {literal : FunctionLit} {xs ys zs : List Token} : Tok .kwFunc xs ys → Reads rules .function ys literal zs →
      Reads rules .operand xs (.function literal) zs
  | array {elements : List Expr} {xs ys zs ws : List Token} : Tok .lbracket xs ys →
      Reads rules .arguments ys elements zs → Tok .rbracket zs ws → Reads rules .operand xs (.array elements) ws
  | hash {pairs : List KeyValue} {xs ys zs ws : List Token} : Tok .lbrace xs ys → Reads rules .pairs ys pairs zs →
      Tok .rbrace zs ws → Reads rules .operand xs (.hash pairs) ws
  | rangeFor {x : String} {start stop : Expr} {body : List Stmt}
      {xs₀ xs₁ xs₂ xs₃ xs₄ xs₅ xs₆ xs₇ xs₈ xs₉ : List Token} :
      Tok .kwFor xs₀ xs₁ → Tok .lparen xs₁ xs₂ → Lit .ident x xs₂ xs₃ → Tok .kwFrom xs₃ xs₄ →
      Reads rules (.expression .lowest) xs₄ start xs₅ → Tok .kwTo xs₅ xs₆ →
      Reads rules (.expression .lowest) xs₆ stop xs₇ → Tok .rparen xs₇ xs₈ → Reads rules .block xs₈ body xs₉ →
      Reads rules .operand xs₀ (.rangeFor x start stop body) xs₉
  | collectionFor {x collection : String} {body : List Stmt} {xs₀ xs₁ xs₂ xs₃ xs₄ xs₅ xs₆ xs₇ : List Token} :
      Tok .kwFor xs₀ xs₁ → Tok .lparen xs₁ xs₂ → Lit .ident x xs₂ xs₃ → Tok .kwIn xs₃ xs₄ →
      Lit .ident collection xs₄ xs₅ → Tok .rparen xs₅ xs₆ → Reads rules .block xs₆ body xs₇ →
      Reads rules .operand xs₀ (.collectionFor x collection body) xs₇
  | new {className : String} {arguments : List Expr} {xs ys zs us vs ws : List Token} : Tok .kwNew xs ys →
      Lit .ident className ys zs → Tok .lparen zs us → Reads rules .arguments us arguments vs → Tok .rparen vs ws →
      Reads rules .operand xs (.new className arguments) ws
  -- their parts
  | noArguments {xs : List Token} : Reads rules .arguments xs [] xs
  | someArguments {e : Expr} {es : List Expr} {xs ys zs : List Token} : Reads rules (.expression .lowest) xs e ys →
      Reads rules .furtherArguments ys es zs → Reads rules .arguments xs (e :: es) zs
  | lastArgument {xs : List Token} : Reads rules .furtherArguments xs [] xs
  | furtherArgument {e : Expr} {es : List Expr} {xs ys zs ws : List Token} : Tok .comma xs ys →
      Reads rules (.expression .lowest) ys e zs → Reads rules .furtherArguments zs es ws →
      Reads rules .furtherArguments xs (e :: es) ws
  | noPairs {xs : List Token} : Reads rules .pairs xs [] xs
  | lastPair {key value : Expr} {xs ys zs ws : List Token} : Reads rules (.expression .lowest) xs key ys →
      Tok .colon ys zs → Reads rules (.expression .lowest) zs value ws → Reads rules .pairs xs [⟨key, value⟩] ws
  | pair {key value : Expr} {pairs : List KeyValue} {xs ys zs us vs ws : List Token} :
      Reads rules (.expression .lowest) xs key ys → Tok .colon ys zs →
      Reads rules (.expression .lowest) zs value us → Tok .comma us vs → Reads rules .pairs vs pairs ws →
      Reads rules .pairs xs (⟨key, value⟩ :: pairs) ws
  | branch {condition : Expr} {body : List Stmt} {xs ys zs us ws : List Token} : Tok .lparen xs ys →
      Reads rules (.expression .lowest) ys condition zs → Tok .rparen zs us → Reads rules .block us body ws →
      Reads rules .branch xs ⟨condition, body⟩ ws
  | lastBranch {xs : List Token} : (rules.longest → kindOf xs ≠ .kwElif) → Reads rules .furtherBranches xs [] xs
  | furtherBranch {first : Branch} {more : List Branch} {xs ys zs ws : List Token} : Tok .kwElif xs ys →
      Reads rules .branch ys first zs → Reads rules .furtherBranches zs more ws →
      Reads rules .furtherBranches xs (first :: more) ws
  | noElse {xs : List Token} : (rules.longest → kindOf xs ≠ .kwElse) → Reads rules .otherwise xs none xs
  | else {body : List Stmt} {xs ys zs : List Token} : Tok .kwElse xs ys → Reads rules .block ys body zs →
      Reads rules .otherwise xs (some body) zs
  | functionLit {parameters : List String} {body : List Stmt} {xs ys zs : List Token} :
      Parameters xs parameters ys → Reads rules .block ys body zs → Reads rules .function xs ⟨parameters, body⟩ zs
  -- statements
  | noValue {xs : List Token} : (rules.longest → kindOf xs ≠ .assign) → Reads rules .initial xs .null xs
  | value {e : Expr} {xs ys zs : List Token} : Tok .assign xs ys → Reads rules (.expression .lowest) ys e zs →
      Reads rules .initial xs e zs
  | noResult {xs : List Token} :
      (rules.longest → kindOf xs = .semicolon ∨ kindOf xs = .rbrace ∨ kindOf xs = .eof) →
      Reads rules .result xs .null xs
  | result {e : Expr} {xs ys : List Token} : Reads rules (.expression .lowest) xs e ys → Reads rules .result xs e ys
  | var {x : String} {e : Expr} {xs ys zs us ws : List Token} : Tok .kwVar xs ys → Lit .ident x ys zs →
      Reads rules .initial zs e us → Semicolon rules rules.closed us ws → Reads rules .statement xs (.var x e) ws
  | ret {e : Expr} {xs ys zs ws : List Token} : Tok .kwReturn xs ys → Reads rules .result ys e zs →
      Semicolon rules rules.closed zs ws → Reads rules .statement xs (.ret e) ws
  | expr {e : Expr} {xs ys zs : List Token} : Reads rules (.expression .lowest) xs e ys →
      Semicolon rules rules.closed ys zs → Reads rules .statement xs (.expr e) zs
  | functionDecl {decl : FunctionDecl} {xs ys zs : List Token} : Tok .kwFunc xs ys →
      Reads rules .declaration ys decl zs → Reads rules .statement xs (.function decl) zs
  | classDecl {name : String} {members : List Member} {xs ys zs us vs ws : List Token} : Tok .kwClass xs ys →
      Lit .ident name ys zs → Tok .lbrace zs us → Reads rules .members us members vs → Tok .rbrace vs ws →
      (members.filterMap Member.init?).length ≤ 1 →
      Reads rules .statement xs (.classDecl (.ofMembers name members)) ws
  | noStatements {xs : List Token} : Reads rules .statements xs [] xs
  | statements {s : Stmt} {rest : List Stmt} {xs ys zs : List Token} : Reads rules .statement xs s ys →
      Reads rules .statements ys rest zs → Reads rules .statements xs (s :: rest) zs
  | block {body : List Stmt} {xs ys zs ws : List Token} : Tok .lbrace xs ys → Reads rules .statements ys body zs →
      Tok .rbrace zs ws → Reads rules .block xs body ws
  | declaration {name : String} {literal : FunctionLit} {xs ys zs ws : List Token} : Lit .ident name xs ys →
      Reads rules .function ys literal zs → Semicolon rules False zs ws →
      Reads rules .declaration xs ⟨name, literal, isPublicName name⟩ ws
  -- members of classes
  | constructor {parameters : List ConstructorParam} {body : List Stmt} {xs ys zs : List Token} :
      Params xs parameters ys → Reads rules .block ys body zs → Reads rules .constructor xs ⟨parameters, body⟩ zs
  | field {x : String} {e : Expr} {xs ys zs us ws : List Token} : Tok .kwVar xs ys → Lit .ident x ys zs →
      Reads rules .initial zs e us → Semicolon rules rules.closed us ws → Reads rules .member xs (.field ⟨x, e⟩) ws
  | method {decl : FunctionDecl} {xs ys zs : List Token} : Tok .kwFunc xs ys → Reads rules .declaration ys decl zs →
      Reads rules .member xs (.method decl) zs
  | init {constructor : Constructor} {xs ys zs : List Token} : Tok .kwInit xs ys →
      Reads rules .constructor ys constructor zs → Reads rules .member xs (.init constructor) zs
  | empty {xs ys : List Token} : Tok .semicolon xs ys → Reads rules .member xs .empty ys
  | noMembers {xs : List Token} : Reads rules .members xs [] xs
  | members {member : Member} {rest : List Member} {xs ys zs : List Token} : Reads rules .member xs member ys →
      Reads rules .members ys rest zs → Reads rules .members xs (member :: rest) zs

end Grammar

end Pron
