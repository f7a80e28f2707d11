import Pron.Proofs.Syntax.Grammar

/-!
# The words of a program

The words of a list of tokens are its identifiers, literals and operators. `Spells` says which words a tree is written
with, each of them once and in the order of the source. Only the members of a class are told apart: the tree keeps the
order among the fields and the order among the methods. There is no rule for `Expr.null` as an expression: it stands
for an omitted initial value or result, which has no words.

A derivation spells its tree (`Grammar.Reads.spells`).
-/

namespace Pron

open Step (kindOf)

/-- A token without its place: an identifier, a literal or an operator. -/
inductive Word
  | name (x : String)
  | integer (literal : String)
  | real (literal : String)
  | text (s : String)
  | truth (b : Bool)
  | operator (k : TokenKind)
  deriving DecidableEq, Repr

/-- The word that a token is. Delimiters and the other keywords are none. -/
def Token.word? (t : Token) : Option Word :=
  match t.kind with
  | .ident => some (.name t.literal)
  | .int => some (.integer t.literal)
  | .real => some (.real t.literal)
  | .str => some (.text t.literal)
  | .kwTrue => some (.truth true)
  | .kwFalse => some (.truth false)
  | .assign | .plus | .minus | .bang | .asterisk | .slash | .modulo | .eq | .notEq | .increment | .decrement | .lt
  | .gt => some (.operator t.kind)
  | _ => none

/-- The words among tokens. -/
def words (tokens : List Token) : List Word := tokens.filterMap Token.word?

/-- The words that a tree is written with. -/
inductive Spells : (c : Category) → c.Tree → List Word → Prop
  -- expressions
  | name {x : String} : Spells .expr (.name x) [.name x]
  | thisName {x : String} : Spells .expr (.thisName x) [.name x]
  | integer {x : String} {n : Int64} : Integer.read? x = some n → Spells .expr (.integer n) [.integer x]
  | real {x : String} {r : Float} : Double.read? x = some r → Spells .expr (.real r) [.real x]
  | text {s : String} : Spells .expr (.text s) [.text s]
  | boolean {b : Bool} : Spells .expr (.boolean b) [.truth b]
  | increment {x : String} : Spells .expr (.increment x) [.name x, .operator .increment]
  | decrement {x : String} : Spells .expr (.decrement x) [.name x, .operator .decrement]
  | unary {op : UnaryOp} {k : TokenKind} {e : Expr} {us : List Word} : Grammar.unary? k = some op →
      Spells .expr e us → Spells .expr (.unary op e) (.operator k :: us)
  | binary {op : BinaryOp} {k : TokenKind} {l r : Expr} {us vs : List Word} : Grammar.binary? k = some op →
      Spells .expr l us → Spells .expr r vs → Spells .expr (.binary op l r) (us ++ .operator k :: vs)
  | conditional {first : Branch} {more : List Branch} {last : Option (List Stmt)} {us vs ws : List Word} :
      Spells .branch first us → Spells .branches more vs → Spells .otherwise last ws →
      Spells .expr (.conditional (first :: more) last) (us ++ (vs ++ ws))
  | function {literal : FunctionLit} {us : List Word} : Spells .literal literal us → Spells .expr (.function literal) us
  | call {f : Expr} {arguments : List Expr} {us vs : List Word} : Spells .expr f us → Spells .exprs arguments vs →
      Spells .expr (.call f arguments) (us ++ vs)
  | index {container i : Expr} {us vs : List Word} : Spells .expr container us → Spells .expr i vs →
      Spells .expr (.index container i) (us ++ vs)
  | array {elements : List Expr} {us : List Word} : Spells .exprs elements us → Spells .expr (.array elements) us
  | hash {pairs : List KeyValue} {us : List Word} : Spells .pairs pairs us → Spells .expr (.hash pairs) us
  | rangeFor {x : String} {start stop : Expr} {body : List Stmt} {us vs ws : List Word} : Spells .expr start us →
      Spells .expr stop vs → Spells .stmts body ws →
      Spells .expr (.rangeFor x start stop body) (.name x :: (us ++ (vs ++ ws)))
  | collectionFor {x collection : String} {body : List Stmt} {us : List Word} : Spells .stmts body us →
      Spells .expr (.collectionFor x collection body) (.name x :: .name collection :: us)
  | new {className : String} {arguments : List Expr} {us : List Word} : Spells .exprs arguments us →
      Spells .expr (.new className arguments) (.name className :: us)
  | methodCall {object method : String} {arguments : List Expr} {us : List Word} : Spells .exprs arguments us →
      Spells .expr (.methodCall object method arguments) (.name object :: .name method :: us)
  -- their parts
  | noExprs : Spells .exprs [] []
  | exprs {e : Expr} {es : List Expr} {us vs : List Word} : Spells .expr e us → Spells .exprs es vs →
      Spells .exprs (e :: es) (us ++ vs)
  | noPairs : Spells .pairs [] []
  | pairs {key value : Expr} {pairs : List KeyValue} {us vs ws : List Word} : Spells .expr key us →
      Spells .expr value vs → Spells .pairs pairs ws → Spells .pairs (⟨key, value⟩ :: pairs) (us ++ (vs ++ ws))
  | branch {condition : Expr} {body : List Stmt} {us vs : List Word} : Spells .expr condition us →
      Spells .stmts body vs → Spells .branch ⟨condition, body⟩ (us ++ vs)
  | noBranches : Spells .branches [] []
  | branches {first : Branch} {more : List Branch} {us vs : List Word} : Spells .branch first us →
      Spells .branches more vs → Spells .branches (first :: more) (us ++ vs)
  | noElse : Spells .otherwise none []
  | else {body : List Stmt} {us : List Word} : Spells .stmts body us → Spells .otherwise (some body) us
  | functionLit {parameters : List String} {body : List Stmt} {us : List Word} : Spells .stmts body us →
      Spells .literal ⟨parameters, body⟩ (parameters.map .name ++ us)
  | noValue : Spells .initial .null []
  | value {e : Expr} {us : List Word} : Spells .expr e us → Spells .initial e (.operator .assign :: us)
  | noResult : Spells .result .null []
  | result {e : Expr} {us : List Word} : Spells .expr e us → Spells .result e us
  -- statements
  | var {x : String} {e : Expr} {us : List Word} : Spells .initial e us → Spells .stmt (.var x e) (.name x :: us)
  | ret {e : Expr} {us : List Word} : Spells .result e us → Spells .stmt (.ret e) us
  | expr {e : Expr} {us : List Word} : Spells .expr e us → Spells .stmt (.expr e) us
  | functionDecl {decl : FunctionDecl} {us : List Word} : Spells .decl decl us → Spells .stmt (.function decl) us
  | classDecl {name : String} {members : List Member} {us : List Word} : Spells .members members us →
      (members.filterMap Member.init?).length ≤ 1 →
      Spells .stmt (.classDecl (.ofMembers name members)) (.name name :: us)
  | noStatements : Spells .stmts [] []
  | statements {s : Stmt} {rest : List Stmt} {us vs : List Word} : Spells .stmt s us → Spells .stmts rest vs →
      Spells .stmts (s :: rest) (us ++ vs)
  | declaration {name : String} {literal : FunctionLit} {us : List Word} : Spells .literal literal us →
      Spells .decl ⟨name, literal, isPublicName name⟩ (.name name :: us)
  -- members of classes
  | constructor {parameters : List ConstructorParam} {body : List Stmt} {us : List Word} : Spells .stmts body us →
      Spells .constructor ⟨parameters, body⟩ (parameters.map (fun p => .name p.name) ++ us)
  | field {x : String} {e : Expr} {us : List Word} : Spells .initial e us →
      Spells .member (.field ⟨x, e⟩) (.name x :: us)
  | method {decl : FunctionDecl} {us : List Word} : Spells .decl decl us → Spells .member (.method decl) us
  | init {constructor : Constructor} {us : List Word} : Spells .constructor constructor us →
      Spells .member (.init constructor) us
  | empty : Spells .member .empty []
  | noMembers : Spells .members [] []
  | members {member : Member} {rest : List Member} {us vs : List Word} : Spells .member member us →
      Spells .members rest vs → Spells .members (member :: rest) (us ++ vs)

/-- No words stand for a part that is missing. -/
theorem not_spells_null {us : List Word} : ¬Spells .expr .null us := by
  intro h
  cases h

namespace Grammar

/-! ## Tokens that are passed -/

/-- `xs` starts with tokens that have the words, none of which is the end or illegal; `ys` comes after them. -/
def Passes (xs : List Token) (us : List Word) (ys : List Token) : Prop :=
  ∃ ts, xs = ts ++ ys ∧ (∀ t ∈ ts, t.kind ≠ .eof ∧ t.kind ≠ .illegal) ∧ words ts = us

/-- The delimiters, and the keywords that are no literals. -/
def silent : TokenKind → Bool
  | .comma | .semicolon | .colon | .dot | .lparen | .rparen | .lbrace | .rbrace | .lbracket | .rbracket => true
  | .kwFunc | .kwVar | .kwIf | .kwElse | .kwElif | .kwReturn | .kwFor | .kwFrom | .kwTo | .kwIn => true
  | .kwClass | .kwInit | .kwThis | .kwNew => true
  | _ => false

namespace Passes

variable {xs ys zs : List Token} {us vs : List Word} {k : TokenKind} {x : String} {w : Word}

theorem refl (xs : List Token) : Passes xs [] xs := ⟨[], rfl, nofun, rfl⟩

/-- Words are passed one after the other. -/
theorem trans (h : Passes xs us ys) (h' : Passes ys vs zs) : Passes xs (us ++ vs) zs := by
  obtain ⟨ts, rfl, hts, rfl⟩ := h
  obtain ⟨ts', rfl, hts', rfl⟩ := h'
  refine ⟨ts ++ ts', (List.append_assoc _ _ _).symm, ?_, List.filterMap_append⟩
  intro t ht
  rcases List.mem_append.1 ht with ht | ht
  · exact hts t ht
  · exact hts' t ht

/-- A token is passed with the word it stands for. -/
theorem lit (h : Lit k x xs ys) (hk : k ≠ .eof) (hw : ∀ line, (Token.mk k x line).word? = some w) :
    Passes xs [w] ys := by
  obtain ⟨line, rfl⟩ := h
  refine ⟨[⟨k, x, line⟩], rfl, ?_, ?_⟩
  · intro t ht
    rw [List.mem_singleton.1 ht]
    refine ⟨hk, ?_⟩
    rintro rfl
    cases hw line
  · rw [words, List.filterMap_cons_some (hw line), List.filterMap_nil]

theorem tok (h : Tok k xs ys) (hk : k ≠ .eof) (hw : ∀ x line, (Token.mk k x line).word? = some w) :
    Passes xs [w] ys := by
  obtain ⟨x, h⟩ := h
  exact .lit h hk (hw x)

/-- Some tokens stand for no word. -/
theorem silent (h : Tok k xs ys) (hk : Grammar.silent k) : Passes xs [] ys := by
  obtain ⟨x, line, rfl⟩ := h
  refine ⟨[⟨k, x, line⟩], rfl, ?_, ?_⟩
  · intro t ht
    rw [List.mem_singleton.1 ht]
    constructor
    all_goals
      rintro rfl
      cases hk
  · have hw : (Token.mk k x line).word? = none := by
      cases k <;> first | rfl | cases hk
    rw [words, List.filterMap_cons_none hw, List.filterMap_nil]

/-- A token before that is no word. -/
theorem after (h : Tok k xs ys) (hk : Grammar.silent k) (h' : Passes ys us zs) : Passes xs us zs :=
  (silent h hk).trans h'

/-- A token behind that is no word. -/
theorem before (h : Passes xs us ys) (h' : Tok k ys zs) (hk : Grammar.silent k) : Passes xs us zs := by
  have := h.trans (silent h' hk)
  rwa [List.append_nil] at this

theorem name (h : Lit .ident x xs ys) : Passes xs [.name x] ys := lit h nofun fun _ => rfl

/-- An operator between operands. -/
theorem operator {op : BinaryOp} (hop : binary? k = some op) (h : Tok k xs ys) : Passes xs [.operator k] ys := by
  cases k with
  | assign | plus | minus | asterisk | slash | modulo | eq | notEq | lt | gt => exact tok h nofun fun _ _ => rfl
  | _ => cases hop

/-- An operator before its operand. -/
theorem unaryOperator {op : UnaryOp} (hop : unary? k = some op) (h : Tok k xs ys) : Passes xs [.operator k] ys := by
  cases k with
  | bang | minus => exact tok h nofun fun _ _ => rfl
  | _ => cases hop

/-- A semicolon behind, or none. -/
theorem close {rules : Rules} {needed : Prop} (h : Passes xs us ys) (h' : Semicolon rules needed ys zs) :
    Passes xs us zs := by
  cases h' with
  | there h' => exact h.before h' rfl
  | missing => exact h

section Lists

variable {α : Type} {item : List Token → α → List Token → Prop} {word : α → Word} {as : List α} {close : TokenKind}
  (hitem : ∀ {xs a ys}, item xs a ys → Passes xs [word a] ys)

include hitem

theorem further (h : Further item xs as ys) : Passes xs (as.map word) ys := by
  induction h with
  | nil => exact refl _
  | cons hcomma ha _ ih => exact .after hcomma rfl ((hitem ha).trans ih)

theorem items (h : Items item close xs as ys) (hclose : Grammar.silent close) : Passes xs (as.map word) ys := by
  cases h with
  | none h => exact silent h hclose
  | some ha has h => exact .before ((hitem ha).trans (further hitem has)) h hclose

end Lists

/-- Parameters are passed as their names. -/
theorem parameters {names : List String} (h : Parameters xs names ys) : Passes xs (names.map .name) ys := by
  obtain ⟨zs, hopen, hnames⟩ := h
  exact .after hopen rfl (items name hnames rfl)

theorem param {p : ConstructorParam} (h : Param xs p ys) : Passes xs [.name p.name] ys := by
  cases h with
  | name hx => exact name hx
  | field hthis hdot hx => exact .after hthis rfl (.after hdot rfl (name hx))

theorem params {params : List ConstructorParam} (h : Params xs params ys) :
    Passes xs (params.map fun p => .name p.name) ys := by
  obtain ⟨zs, hopen, hparams⟩ := h
  exact .after hopen rfl (items param hparams rfl)

end Passes

/-! ## Derivations -/

/-- What a phrase spells; a chain goes on with the words of the expression before it. -/
def SpellsPhrase : (phrase : Phrase) → phrase.Tree → List Word → Prop
  | .chain _ left, e, us => ∀ vs, Spells .expr left vs → Spells .expr e (vs ++ us)
  | phrase, tree, us => Spells phrase.category tree us

variable {rules : Rules} {xs ys : List Token}

/-- The words that a derivation passes spell its tree. -/
theorem Reads.passes {phrase : Phrase} {tree : phrase.Tree} (h : Reads rules phrase xs tree ys) :
    ∃ us, Passes xs us ys ∧ SpellsPhrase phrase tree us := by
  induction h with
  -- expressions
  | expression _ _ ih ih' =>
    obtain ⟨us, hus, h⟩ := ih
    obtain ⟨vs, hvs, h'⟩ := ih'
    exact ⟨_, hus.trans hvs, h' _ h⟩
  | stop => exact ⟨[], .refl _, fun vs h => by rwa [List.append_nil]⟩
  | operator hop _ hk _ _ ih ih' =>
    obtain ⟨us, hus, h⟩ := ih
    obtain ⟨vs, hvs, h'⟩ := ih'
    refine ⟨_, (Passes.operator hop hk).trans (hus.trans hvs), fun ws hl => ?_⟩
    have := h' _ (.binary hop hl h)
    rwa [List.append_assoc] at this
  | call _ hopen _ hclose _ ih ih' =>
    obtain ⟨us, hus, h⟩ := ih
    obtain ⟨vs, hvs, h'⟩ := ih'
    refine ⟨_, .after hopen rfl ((hus.before hclose rfl).trans hvs), fun ws hl => ?_⟩
    have := h' _ (.call hl h)
    rwa [List.append_assoc] at this
  | index _ hopen _ hclose _ ih ih' =>
    obtain ⟨us, hus, h⟩ := ih
    obtain ⟨vs, hvs, h'⟩ := ih'
    refine ⟨_, .after hopen rfl ((hus.before hclose rfl).trans hvs), fun ws hl => ?_⟩
    have := h' _ (.index hl h)
    rwa [List.append_assoc] at this
  -- operands
  | name hx => exact ⟨_, .name hx, .name⟩
  | increment hx hstep => exact ⟨_, (Passes.name hx).trans (.tok hstep nofun fun _ _ => rfl), .increment⟩
  | decrement hx hstep => exact ⟨_, (Passes.name hx).trans (.tok hstep nofun fun _ _ => rfl), .decrement⟩
  | methodCall hobject hdot hmethod hopen _ hclose ih =>
    obtain ⟨us, hus, h⟩ := ih
    have harguments := hus.before hclose rfl
    exact ⟨_, (Passes.name hobject).trans (.after hdot rfl ((Passes.name hmethod).trans (.after hopen rfl harguments))),
      .methodCall h⟩
  | thisName hthis hdot hx => exact ⟨_, .after hthis rfl (.after hdot rfl (.name hx)), .thisName⟩
  | integer hx hread => exact ⟨_, .lit hx nofun fun _ => rfl, .integer hread⟩
  | real hx hread => exact ⟨_, .lit hx nofun fun _ => rfl, .real hread⟩
  | text hx => exact ⟨_, .lit hx nofun fun _ => rfl, .text⟩
  | true h => exact ⟨_, .tok h nofun fun _ _ => rfl, .boolean⟩
  | false h => exact ⟨_, .tok h nofun fun _ _ => rfl, .boolean⟩
  | unary hop hk _ ih =>
    obtain ⟨us, hus, h⟩ := ih
    exact ⟨_, (Passes.unaryOperator hop hk).trans hus, .unary hop h⟩
  | group hopen _ hclose ih =>
    obtain ⟨us, hus, h⟩ := ih
    exact ⟨_, .after hopen rfl (hus.before hclose rfl), h⟩
  | conditional hif _ _ _ ih ih' ih'' =>
    obtain ⟨us, hus, h⟩ := ih
    obtain ⟨vs, hvs, h'⟩ := ih'
    obtain ⟨ws, hws, h''⟩ := ih''
    exact ⟨_, .after hif rfl (hus.trans (hvs.trans hws)), .conditional h h' h''⟩
  | function hfunc _ ih =>
    obtain ⟨us, hus, h⟩ := ih
    exact ⟨_, .after hfunc rfl hus, .function h⟩
  | array hopen _ hclose ih =>
    obtain ⟨us, hus, h⟩ := ih
    exact ⟨_, .after hopen rfl (hus.before hclose rfl), .array h⟩
  | hash hopen _ hclose ih =>
    obtain ⟨us, hus, h⟩ := ih
    exact ⟨_, .after hopen rfl (hus.before hclose rfl), .hash h⟩
  | rangeFor hfor hopen hx hfrom _ hto _ hclose _ ih ih' ih'' =>
    obtain ⟨us, hus, h⟩ := ih
    obtain ⟨vs, hvs, h'⟩ := ih'
    obtain ⟨ws, hws, h''⟩ := ih''
    have hrange := hus.trans (.after hto rfl (hvs.trans (.after hclose rfl hws)))
    exact ⟨.name _ :: (us ++ (vs ++ ws)),
      .after hfor rfl (.after hopen rfl ((Passes.name hx).trans (.after hfrom rfl hrange))), .rangeFor h h' h''⟩
  | collectionFor hfor hopen hx hin hcollection hclose _ ih =>
    obtain ⟨us, hus, h⟩ := ih
    have hrest := (Passes.name hcollection).trans (.after hclose rfl hus)
    exact ⟨_, .after hfor rfl (.after hopen rfl ((Passes.name hx).trans (.after hin rfl hrest))), .collectionFor h⟩
  | new hnew hname hopen _ hclose ih =>
    obtain ⟨us, hus, h⟩ := ih
    exact ⟨_, .after hnew rfl ((Passes.name hname).trans (.after hopen rfl (hus.before hclose rfl))), .new h⟩
  -- their parts
  | noArguments => exact ⟨[], .refl _, .noExprs⟩
  | lastArgument => exact ⟨[], .refl _, .noExprs⟩
  | someArguments _ _ ih ih' =>
    obtain ⟨us, hus, h⟩ := ih
    obtain ⟨vs, hvs, h'⟩ := ih'
    exact ⟨_, hus.trans hvs, .exprs h h'⟩
  | furtherArgument hcomma _ _ ih ih' =>
    obtain ⟨us, hus, h⟩ := ih
    obtain ⟨vs, hvs, h'⟩ := ih'
    exact ⟨_, .after hcomma rfl (hus.trans hvs), .exprs h h'⟩
  | noPairs => exact ⟨[], .refl _, .noPairs⟩
  | lastPair _ hcolon _ ih ih' =>
    obtain ⟨us, hus, h⟩ := ih
    obtain ⟨vs, hvs, h'⟩ := ih'
    refine ⟨us ++ (vs ++ []), hus.trans (.after hcolon rfl ?_), .pairs h h' .noPairs⟩
    rwa [List.append_nil]
  | pair _ hcolon _ hcomma _ ih ih' ih'' =>
    obtain ⟨us, hus, h⟩ := ih
    obtain ⟨vs, hvs, h'⟩ := ih'
    obtain ⟨ws, hws, h''⟩ := ih''
    exact ⟨_, hus.trans (.after hcolon rfl (hvs.trans (.after hcomma rfl hws))), .pairs h h' h''⟩
  | branch hopen _ hclose _ ih ih' =>
    obtain ⟨us, hus, h⟩ := ih
    obtain ⟨vs, hvs, h'⟩ := ih'
    exact ⟨_, .after hopen rfl ((hus.before hclose rfl).trans hvs), .branch h h'⟩
  | lastBranch => exact ⟨[], .refl _, .noBranches⟩
  | furtherBranch helif _ _ ih ih' =>
    obtain ⟨us, hus, h⟩ := ih
    obtain ⟨vs, hvs, h'⟩ := ih'
    exact ⟨_, .after helif rfl (hus.trans hvs), .branches h h'⟩
  | noElse => exact ⟨[], .refl _, .noElse⟩
  | «else» helse _ ih =>
    obtain ⟨us, hus, h⟩ := ih
    exact ⟨_, .after helse rfl hus, .else h⟩
  | functionLit hparameters _ ih =>
    obtain ⟨us, hus, h⟩ := ih
    exact ⟨_, (Passes.parameters hparameters).trans hus, .functionLit h⟩
  -- statements
  | noValue => exact ⟨[], .refl _, .noValue⟩
  | value hassign _ ih =>
    obtain ⟨us, hus, h⟩ := ih
    exact ⟨_, (Passes.tok hassign nofun fun _ _ => rfl).trans hus, .value h⟩
  | noResult => exact ⟨[], .refl _, .noResult⟩
  | result _ ih =>
    obtain ⟨us, hus, h⟩ := ih
    exact ⟨us, hus, .result h⟩
  | var hvar hx _ hsemicolon ih =>
    obtain ⟨us, hus, h⟩ := ih
    exact ⟨_, .after hvar rfl ((Passes.name hx).trans (hus.close hsemicolon)), .var h⟩
  | ret hreturn _ hsemicolon ih =>
    obtain ⟨us, hus, h⟩ := ih
    exact ⟨_, .after hreturn rfl (hus.close hsemicolon), .ret h⟩
  | expr _ hsemicolon ih =>
    obtain ⟨us, hus, h⟩ := ih
    exact ⟨_, hus.close hsemicolon, .expr h⟩
  | functionDecl hfunc _ ih =>
    obtain ⟨us, hus, h⟩ := ih
    exact ⟨_, .after hfunc rfl hus, .functionDecl h⟩
  | classDecl hclass hname hopen _ hclose hinits ih =>
    obtain ⟨us, hus, h⟩ := ih
    have hbody := Passes.after hopen rfl (hus.before hclose rfl)
    exact ⟨_, .after hclass rfl ((Passes.name hname).trans hbody), .classDecl h hinits⟩
  | noStatements => exact ⟨[], .refl _, .noStatements⟩
  | statements _ _ ih ih' =>
    obtain ⟨us, hus, h⟩ := ih
    obtain ⟨vs, hvs, h'⟩ := ih'
    exact ⟨_, hus.trans hvs, .statements h h'⟩
  | block hopen _ hclose ih =>
    obtain ⟨us, hus, h⟩ := ih
    exact ⟨_, .after hopen rfl (hus.before hclose rfl), h⟩
  | declaration hname _ hsemicolon ih =>
    obtain ⟨us, hus, h⟩ := ih
    exact ⟨_, (Passes.name hname).trans (hus.close hsemicolon), .declaration h⟩
  -- members of classes
  | constructor hparams _ ih =>
    obtain ⟨us, hus, h⟩ := ih
    exact ⟨_, (Passes.params hparams).trans hus, .constructor h⟩
  | field hvar hx _ hsemicolon ih =>
    obtain ⟨us, hus, h⟩ := ih
    exact ⟨_, .after hvar rfl ((Passes.name hx).trans (hus.close hsemicolon)), .field h⟩
  | method hfunc _ ih =>
    obtain ⟨us, hus, h⟩ := ih
    exact ⟨_, .after hfunc rfl hus, .method h⟩
  | init hinit _ ih =>
    obtain ⟨us, hus, h⟩ := ih
    exact ⟨_, .after hinit rfl hus, .init h⟩
  | empty h => exact ⟨[], .silent h rfl, .empty⟩
  | noMembers => exact ⟨[], .refl _, .noMembers⟩
  | members _ _ ih ih' =>
    obtain ⟨us, hus, h⟩ := ih
    obtain ⟨vs, hvs, h'⟩ := ih'
    exact ⟨_, hus.trans hvs, .members h h'⟩

end Grammar

end Pron
