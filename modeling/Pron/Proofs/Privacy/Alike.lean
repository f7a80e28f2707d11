import Mathlib.Data.List.Forall2
import Mathlib.Data.Option.Basic
import Pron.Proofs.Privacy.Mentions
import Pron.Proofs.Actions

/-!
# Programs that differ in a private method

Two programs are alike when they are the same text but for the bodies that some class statements give to one private
method (`Secret.AlikeStmt`). Such a class is secretive: nothing else in it mentions the method.

What stands outside of the class is evaluated inside an instance all the same where the language says so. The arguments
of a method call are evaluated in the frame of the object, and so are the arguments of `new` that a constructor takes
for fields; a unit is run in the frame where its class is wanted, which may be that of an instance. These texts are
required not to mention the method (`Secret.Permits`). All other text may mention the name as it likes.

A function that is displayed shows its text, and an assignment that fails shows what it should assign to. Where the
statement of a secretive class stands in such a text, the two programs show different texts (`Secret.Shown`).
-/

namespace Pron

/-- A private method, and where text from outside of its class may be evaluated inside. -/
structure Secret where
  method : String
  /-- The positions of the arguments of `new` that constructors of the class take for fields. -/
  arguments : Nat → Prop
  /-- The units that may be asked for inside an instance. -/
  units : String → Prop
  /-- Whether a function, or the left side of an assignment, may hold the statement of the class. -/
  nested : Prop

/-- Where a text is evaluated: in the frames of a secretive class and of its instances, and in the frames inside of
these, or elsewhere. -/
inductive Side
  | inside | outside

namespace Secret

variable (S : Secret)

/-- What may be mentioned inside. The name of the binding for constructors is a reserved word, which no program has for
a name. -/
def Allows : Mention → Prop
  | .name x => x ≠ S.method ∧ x ≠ Eval.initName
  | .unit className => S.units className

/-- Whether a text with these mentions may be evaluated on a side. -/
def Permits : Side → List Mention → Prop
  | .inside, mentions => ∀ m ∈ mentions, S.Allows m
  | .outside, _ => True

/-! ## Alike texts -/

mutual

/-- Expressions that differ only in the method. -/
inductive AlikeExpr : Expr → Expr → Prop
  | null : AlikeExpr .null .null
  | name (x : String) : AlikeExpr (.name x) (.name x)
  | thisName (x : String) : AlikeExpr (.thisName x) (.thisName x)
  | integer (n : Int64) : AlikeExpr (.integer n) (.integer n)
  | real (x : Float) : AlikeExpr (.real x) (.real x)
  | text (t : String) : AlikeExpr (.text t) (.text t)
  | boolean (b : Bool) : AlikeExpr (.boolean b) (.boolean b)
  | unary (op : UnaryOp) {e e' : Expr} : AlikeExpr e e' → AlikeExpr (.unary op e) (.unary op e')
  | binary (op : BinaryOp) {l l' r r' : Expr} : AlikeExpr l l' → AlikeExpr r r' →
      (op = .assign → S.nested ∨ l = l') → AlikeExpr (.binary op l r) (.binary op l' r')
  | conditional {bs bs' : List Branch} {o o' : Option (List Stmt)} : List.Forall₂ AlikeBranch bs bs' →
      Option.Rel (List.Forall₂ AlikeStmt) o o' → AlikeExpr (.conditional bs o) (.conditional bs' o')
  | function {f f' : FunctionLit} : AlikeFunction f f' → AlikeExpr (.function f) (.function f')
  | call {f f' : Expr} {es es' : List Expr} : AlikeExpr f f' → List.Forall₂ AlikeExpr es es' →
      AlikeExpr (.call f es) (.call f' es')
  | array {es es' : List Expr} : List.Forall₂ AlikeExpr es es' → AlikeExpr (.array es) (.array es')
  | index {c c' i i' : Expr} : AlikeExpr c c' → AlikeExpr i i' → AlikeExpr (.index c i) (.index c' i')
  | hash {ps ps' : List KeyValue} : List.Forall₂ AlikePair ps ps' → AlikeExpr (.hash ps) (.hash ps')
  | rangeFor (x : String) {a a' b b' : Expr} {body body' : List Stmt} : AlikeExpr a a' → AlikeExpr b b' →
      List.Forall₂ AlikeStmt body body' → AlikeExpr (.rangeFor x a b body) (.rangeFor x a' b' body')
  | collectionFor (x collection : String) {body body' : List Stmt} : List.Forall₂ AlikeStmt body body' →
      AlikeExpr (.collectionFor x collection body) (.collectionFor x collection body')
  | new (className : String) {es es' : List Expr} : List.Forall₂ AlikeExpr es es' →
      (∀ i e, es[i]? = some e → S.arguments i → S.Permits .inside e.mentions) →
      AlikeExpr (.new className es) (.new className es')
  | methodCall (object method : String) {es es' : List Expr} : List.Forall₂ AlikeExpr es es' →
      S.Permits .inside (exprMentions es) →
      AlikeExpr (.methodCall object method es) (.methodCall object method es')
  | increment (x : String) : AlikeExpr (.increment x) (.increment x)
  | decrement (x : String) : AlikeExpr (.decrement x) (.decrement x)

inductive AlikeBranch : Branch → Branch → Prop
  | mk {c c' : Expr} {body body' : List Stmt} : AlikeExpr c c' → List.Forall₂ AlikeStmt body body' →
      AlikeBranch ⟨c, body⟩ ⟨c', body'⟩

inductive AlikePair : KeyValue → KeyValue → Prop
  | mk {k k' v v' : Expr} : AlikeExpr k k' → AlikeExpr v v' → AlikePair ⟨k, v⟩ ⟨k', v'⟩

/-- Functions with the same parameters. Their texts are the same unless they may hold the statement of the class. -/
inductive AlikeFunction : FunctionLit → FunctionLit → Prop
  | mk (parameters : List String) {body body' : List Stmt} : List.Forall₂ AlikeStmt body body' →
      (S.nested ∨ body = body') → AlikeFunction ⟨parameters, body⟩ ⟨parameters, body'⟩

inductive AlikeDecl : FunctionDecl → FunctionDecl → Prop
  | mk (x : String) (isPublic : Bool) {f f' : FunctionLit} : AlikeFunction f f' →
      AlikeDecl ⟨x, f, isPublic⟩ ⟨x, f', isPublic⟩

inductive AlikeField : FieldDecl → FieldDecl → Prop
  | mk (x : String) {e e' : Expr} : AlikeExpr e e' → AlikeField ⟨x, e⟩ ⟨x, e'⟩

inductive AlikeInit : Constructor → Constructor → Prop
  | mk (parameters : List ConstructorParam) {body body' : List Stmt} : List.Forall₂ AlikeStmt body body' →
      (S.nested ∨ body = body') → AlikeInit ⟨parameters, body⟩ ⟨parameters, body'⟩

/-- Methods of a secretive class: the private one with any two bodies, or others, which do not mention it. -/
inductive AlikeMember : FunctionDecl → FunctionDecl → Prop
  | hidden (f f' : FunctionLit) : AlikeMember ⟨S.method, f, false⟩ ⟨S.method, f', false⟩
  | other {d d' : FunctionDecl} : AlikeDecl d d' → S.Permits .inside d.mentions → AlikeMember d d'

/-- Class statements: of a secretive class, or of another one. -/
inductive AlikeClass : ClassDecl → ClassDecl → Prop
  | secretive (x : String) {fs fs' : List FieldDecl} {ms ms' : List FunctionDecl} {init init' : Option Constructor} :
      List.Forall₂ AlikeField fs fs' → (∀ f ∈ fs, f.name ≠ Eval.initName ∧ S.Permits .inside f.value.mentions) →
      List.Forall₂ AlikeMember ms ms' → Option.Rel AlikeInit init init' →
      (∀ c ∈ init, S.Permits .inside c.mentions ∧ ∀ i p, c.parameters[i]? = some p → p.isField → S.arguments i) →
      AlikeClass ⟨x, fs, ms, init⟩ ⟨x, fs', ms', init'⟩
  | other (x : String) {fs fs' : List FieldDecl} {ms ms' : List FunctionDecl} {init init' : Option Constructor} :
      List.Forall₂ AlikeField fs fs' → List.Forall₂ AlikeDecl ms ms' → Option.Rel AlikeInit init init' →
      AlikeClass ⟨x, fs, ms, init⟩ ⟨x, fs', ms', init'⟩

/-- Statements that differ only in the method. -/
inductive AlikeStmt : Stmt → Stmt → Prop
  | var (x : String) {e e' : Expr} : AlikeExpr e e' → AlikeStmt (.var x e) (.var x e')
  | ret {e e' : Expr} : AlikeExpr e e' → AlikeStmt (.ret e) (.ret e')
  | expr {e e' : Expr} : AlikeExpr e e' → AlikeStmt (.expr e) (.expr e')
  | function {d d' : FunctionDecl} : AlikeDecl d d' → AlikeStmt (.function d) (.function d')
  | classDecl {c c' : ClassDecl} : AlikeClass c c' → AlikeStmt (.classDecl c) (.classDecl c')

end

/-- Blocks and programs that differ only in the method. -/
abbrev AlikeBlock : List Stmt → List Stmt → Prop := List.Forall₂ S.AlikeStmt

/-- The units of a class: none on either side, or two that differ only in the method. -/
inductive AlikeUnit (className : String) : Except UnitError String → Except UnitError String → Prop
  | none (e e' : UnitError) : AlikeUnit className (.error e) (.error e')
  | some {source source' : String} : S.AlikeBlock (parseSource source).program (parseSource source').program →
      (S.units className → S.Permits .inside (blockMentions (parseSource source).program)) →
      AlikeUnit className (.ok source) (.ok source')

/-- Libraries whose units differ only in the method. -/
def AlikeLibrary (library library' : Library) : Prop :=
  ∀ className, S.AlikeUnit className (library className) (library' className)

/-! ## What is shown -/

/-- Texts that are the same but for texts of functions, constructors and left sides of assignments that hold the
statement of the class. -/
inductive Shown : String → String → Prop
  | same (t : String) : Shown t t
  | append {a a' b b' : String} : Shown a a' → Shown b b' → Shown (a ++ b) (a' ++ b')
  | function {f f' : FunctionLit} : S.AlikeFunction f f' → Shown (f.render "func") (f'.render "func")
  | init {c c' : Constructor} : S.AlikeInit c c' → Shown c.render c'.render
  | target {e e' : Expr} : S.AlikeExpr e e' → S.nested ∨ e = e' → Shown e.render e'.render

/-- Outcomes that show such texts. -/
inductive ShownSeen : Seen → Seen → Prop
  | value {a b : String} : S.Shown a b → ShownSeen (.value a) (.value b)
  | returned {a b : String} : S.Shown a b → ShownSeen (.returned a) (.returned b)
  | failed {a b : String} : S.Shown a b → ShownSeen (.failed a) (.failed b)
  | tooDeep : ShownSeen .tooDeep .tooDeep

/-- Errors that are the same but for such texts. -/
inductive AlikeError : RuntimeError → RuntimeError → Prop
  | same (e : RuntimeError) : AlikeError e e
  | target {e e' : Expr} : S.AlikeExpr e e' → S.nested ∨ e = e' → AlikeError (.notAssignable e) (.notAssignable e')

variable {S}

/-- Where the statement of the class stands in none of them, nothing is shown of it. -/
theorem Shown.eq {a b : String} (h : S.Shown a b) (hnested : ¬S.nested) : a = b := by
  induction h with
  | same => rfl
  | append _ _ iha ihb => rw [iha, ihb]
  | function h =>
    cases h with
    | mk _ _ h => rw [h.resolve_left hnested]
  | init h =>
    cases h with
    | mk _ _ h => rw [h.resolve_left hnested]
  | target _ h => rw [h.resolve_left hnested]

/-- Where no shown function holds the class, what is seen is the same. -/
theorem ShownSeen.eq {a b : Seen} (h : S.ShownSeen a b) (hnested : ¬S.nested) : a = b := by
  cases h with
  | value h => rw [h.eq hnested]
  | returned h => rw [h.eq hnested]
  | failed h => rw [h.eq hnested]
  | tooDeep => rfl

/-- Alike errors have messages that are shown alike. -/
theorem AlikeError.message {e e' : RuntimeError} (h : S.AlikeError e e') : S.Shown e.message e'.message := by
  cases h with
  | same => exact .same _
  | target he hnested => exact .append (.same _) (.target he hnested)

/-- Parts that are shown alike are shown alike between commas. -/
theorem Shown.commas {α : Type} {f g : α → String} {as : List α} (h : ∀ a ∈ as, S.Shown (f a) (g a)) :
    S.Shown (Render.commas (as.map f)) (Render.commas (as.map g)) := by
  unfold Render.commas
  induction as with
  | nil => exact .same _
  | cons a as ih =>
    obtain ⟨ha, has⟩ := List.forall_mem_cons.1 h
    cases as with
    | nil => simpa only [List.map, String.intercalate_singleton] using ha
    | cons b bs =>
      simp only [List.map_cons, String.intercalate_cons_cons] at ih ⊢
      exact .append (.append ha (.same _)) (ih has)

/-- Parts that are shown alike are shown alike one behind the other. -/
theorem Shown.join {α : Type} {f g : α → String} {as : List α} (h : ∀ a ∈ as, S.Shown (f a) (g a)) :
    S.Shown (String.join (as.map f)) (String.join (as.map g)) := by
  induction as with
  | nil => exact .same _
  | cons a as ih =>
    obtain ⟨ha, has⟩ := List.forall_mem_cons.1 h
    rw [List.map_cons, List.map_cons, String.join_cons, String.join_cons]
    exact .append ha (ih has)

/-! ## What is permitted -/

variable {side : Side} {ms ms' : List Mention}

/-- What is permitted of two lists is permitted of each. -/
@[simp]
theorem permits_append : S.Permits side (ms ++ ms') ↔ S.Permits side ms ∧ S.Permits side ms' := by
  cases side with
  | inside => simp [Permits, or_imp, forall_and]
  | outside => simp [Permits]

/-- Outside, every name is permitted. -/
@[simp]
theorem permits_cons {m : Mention} :
    S.Permits side (m :: ms) ↔ (side = .inside → S.Allows m) ∧ S.Permits side ms := by
  cases side <;> simp [Permits]

end Secret

end Pron
