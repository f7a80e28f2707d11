import Pron.Proofs.Reserved.Store

/-!
# Evaluations and the reserved name

An evaluation of a text that mentions names keeps the name of constructors reserved. Its result is no constructor, and
it never finds that what should be a constructor is none (`Eval.Keeps`). Units are sources, so what they mention are
names as well, whatever the library gives for them. There is one lemma for each part of the evaluator; by induction on
the depth they carry over to evaluations of every depth, also to those that are stopped in the middle
(`Eval.keeper_exprUntil`).
-/

namespace Pron

namespace Eval

variable {α β : Type} {s t : Store} {E F : FrameId} {v : Value} {x : String}

/-! ## What is kept -/

/-- A stop that gives away an ordinary value, or is another error than that of a constructor that is none. -/
def Orderly (s : Store) : Stop → Prop
  | .returned v => s.Ordinary v
  | .failed e => ∀ className, e ≠ .notAConstructor className
  | .tooDeep => True

/-- How an evaluation ends that keeps the name reserved and has a result as described. -/
def Ends (s : Store) (R : Store → α → Prop) : EStateM.Result Stop Store α → Prop
  | .ok a t => t.Reserved ∧ s.Becomes t ∧ R t a
  | .error stop t => t.Reserved ∧ s.Becomes t ∧ Orderly t stop

/-- An evaluation keeps the name reserved, and has a result as described. -/
def Keeps (s : Store) (R : Store → α → Prop) (x : Eval α) : Prop := s.Reserved → Ends s R (x s)

/-- Several ordinary values. -/
def AllOrdinary (s : Store) (vs : List Value) : Prop := ∀ v ∈ vs, s.Ordinary v

/-- No condition on the result. -/
def Done (_ : Store) (_ : α) : Prop := True

namespace Keeps

variable {R : Store → α → Prop} {Q : Store → β → Prop} {o : Object}

theorem pure {a : α} (h : R s a) : Keeps s R (Pure.pure a) := fun hs => ⟨hs, .refl s, h⟩

/-- What ends an evaluation gives an ordinary value away, if any. -/
theorem throw {stop : Stop} (h : Orderly s stop) : Keeps s R (MonadExcept.throw stop : Eval α) :=
  fun hs => ⟨hs, .refl s, h⟩

/-- All errors but the one about a constructor that is none. -/
theorem fail {e : RuntimeError} (h : ∀ className, e ≠ .notAConstructor className) : Keeps s R (Eval.fail e : Eval α) :=
  throw h

/-- Evaluations that keep the name reserved one after the other. -/
theorem bind {x : Eval α} {f : α → Eval β} (hx : Keeps s R x) (hf : ∀ a t, s.Becomes t → R t a → Keeps t Q (f a)) :
    Keeps s Q (x >>= f) := by
  intro hs
  have h := hx hs
  show Ends s Q (EStateM.bind x f s)
  unfold EStateM.bind
  cases hr : x s with
  | ok a t =>
    rw [hr] at h
    obtain ⟨ht, hst, ha⟩ := h
    have h' := hf a t hst ha ht
    dsimp only
    cases hr' : f a t with
    | ok | error =>
      rw [hr'] at h'
      exact ⟨h'.1, hst.trans h'.2.1, h'.2.2⟩
  | error stop t =>
    rw [hr] at h
    exact h

/-- The evaluation may depend on the store. -/
theorem read {f : Store → Eval β} (h : s.Reserved → Keeps s Q (f s)) : Keeps s Q (get >>= f) := fun hs => h hs hs

/-- The evaluation may depend on what a value is. -/
theorem datum {f : Datum → Eval β} (h : s.Reserved → Keeps s Q (f (s.datum v))) : Keeps s Q (Eval.datum v >>= f) :=
  fun hs => h hs hs

/-- A change that keeps the name reserved. -/
theorem change {f : Store → Store} (h : s.Reserved → (f s).Reserved ∧ s.Becomes (f s)) :
    Keeps s Done (modify f : Eval Unit) := fun hs => ⟨(h hs).1, (h hs).2, trivial⟩

/-- New objects other than constructors are ordinary. -/
theorem alloc (ho : s.Harmless o) (htype : o.type ≠ .init) : Keeps s Store.Ordinary (Eval.alloc o) :=
  fun hs => ⟨hs.alloc ho, .alloc s o, Store.ordinary_alloc_self htype⟩

theorem integer (n : Int64) : Keeps s Store.Ordinary (Eval.alloc (.integer n)) := alloc ⟨NamesAre.nil, nofun⟩ nofun

theorem array {elements : List Value} (h : AllOrdinary s elements) :
    Keeps s Store.Ordinary (Eval.alloc (.array elements)) := alloc ⟨NamesAre.nil, h⟩ nofun

theorem hash {entries : List HashEntry} (h : ∀ e ∈ entries, s.OrdinaryEntry e) :
    Keeps s Store.Ordinary (Eval.alloc (.hash entries)) := alloc (Store.harmless_hash h) nofun

theorem function {closure : Closure} (h : NamesAre IsName closure.literal.mentions) :
    Keeps s Store.Ordinary (Eval.alloc (.function closure)) := alloc ⟨h, nofun⟩ nofun

/-- An instance mentions no names and has no parts. -/
theorem inst (className : String) (E : FrameId) : Keeps s Store.Ordinary (Eval.alloc (.inst className E)) :=
  alloc ⟨NamesAre.nil, nofun⟩ nofun

/-- An ordinary value is bound to a name, which is never the reserved one. -/
theorem bindName (E : FrameId) (hx : IsName x) (hv : s.Ordinary v) : Keeps s Done (Eval.bind E x v) :=
  change fun hs => ⟨hs.setName E hx hv, .set s E x v⟩

theorem newChild (E : FrameId) : Keeps s Done (modifyGet (·.newChild E) : Eval FrameId) :=
  fun hs => ⟨hs.newFrame nofun fun _ => rfl, .newFrame s _, trivial⟩

/-- The frame of a class. -/
theorem newRoot : Keeps s Store.IsOwner (modifyGet Store.newRoot : Eval FrameId) :=
  fun hs => ⟨hs.newFrame nofun fun _ => rfl, .newFrame s _, hs.isOwner_newFrame.2 rfl⟩

theorem ofStore {action : StoreM α} (h : s.Keeps R action) : Keeps s R (Eval.ofStore action) := h

/-- What is returned is ordinary, so the value of the call is. -/
theorem catchReturn {x : Eval Value} (hx : Keeps s Store.Ordinary x) : Keeps s Store.Ordinary (Eval.catchReturn x) := by
  intro hs
  have h := hx hs
  unfold Eval.catchReturn
  cases hr : x s with
  | ok v t =>
    rw [hr] at h
    exact h
  | error stop t =>
    rw [hr] at h
    cases stop with
    | returned v => exact h
    | failed | tooDeep => exact h

/-- Rounds that keep the name reserved one after the other. -/
theorem forM {as : List α} {r : Store → α → Prop} (hr : ∀ {s t a}, s.Becomes t → r s a → r t a) (has : ∀ a ∈ as, r s a)
    {f : α → Eval Unit} (hf : ∀ t a, s.Becomes t → r t a → Keeps t Done (f a)) : Keeps s Done (as.forM f) := by
  induction as generalizing s with
  | nil => exact pure trivial
  | cons a as ih =>
    obtain ⟨ha, has⟩ := List.forall_mem_cons.1 has
    show Keeps s Done (f a >>= fun _ => as.forM f)
    refine (hf s a (.refl s) ha).bind fun _ t hst _ => ih (fun a h => hr hst (has a h)) fun u a htu => ?_
    exact hf u a (hst.trans htu)

/-- What is done only when a condition is met. -/
theorem require {c : Prop} [Decidable c] {e : RuntimeError} (he : ∀ className, e ≠ .notAConstructor className)
    {f : Unit → Eval β} (hf : Keeps s Q (f ())) : Keeps s Q (if c then Eval.fail e >>= f else f ()) := by
  split
  · exact (fail (R := fun _ _ => False) he).bind fun _ _ _ h => h.elim
  · exact hf

end Keeps

/-! ## Operators -/

/-- Data of which nothing else is part. -/
def Scalar : Datum → Prop
  | .null | .boolean _ | .object (.integer _) | .object (.real _) | .object (.text _) => True
  | .object _ => False

/-- The outcome of an operator: a result as described, or another error than that of a constructor that is none. -/
def Gives (R : α → Prop) : Except RuntimeError α → Prop
  | .ok a => R a
  | .error e => ∀ className, e ≠ .notAConstructor className

/-- The other errors of operators are allowed. -/
theorem Gives.error {R : α → Prop} {e : RuntimeError} (h : ∀ className, e ≠ .notAConstructor className) :
    Gives R (.error e) := h

/-- What operators give is no constructor, and neither are their errors about one. -/
theorem gives_integers (op : BinaryOp) (m n : Int64) : Gives Scalar (Operator.integers op m n) := by
  cases op with
  | div | mod =>
    unfold Operator.integers
    dsimp only
    split
    · exact .error nofun
    · trivial
  | assign => exact Gives.error nofun
  | _ => trivial

theorem gives_reals (op : BinaryOp) (a b : Float) : Gives Scalar (Operator.reals op a b) := by
  cases op with
  | assign => exact Gives.error nofun
  | _ => trivial

theorem gives_texts (op : BinaryOp) (a b : String) : Gives Scalar (Operator.texts op a b) := by
  cases op with
  | add | eq | ne => trivial
  | _ => exact Gives.error nofun

theorem gives_others (op : BinaryOp) (l r : Value) (type : DataType) : Gives Scalar (Operator.others op l r type) := by
  cases op with
  | eq | ne => trivial
  | _ => exact Gives.error nofun

/-- The same for all operators between two operands. -/
theorem gives_binary (s : Store) (op : BinaryOp) (l r : Value) : Gives Scalar (Operator.binary s op l r) := by
  unfold Operator.binary
  split
  · exact gives_texts op _ _
  · exact gives_integers op _ _
  · unfold Operator.mixed
    split
    · exact gives_reals op _ _
    · split
      · exact gives_others op l r _
      · exact .error nofun

/-- The same for the prefix operators. -/
theorem gives_unary (op : UnaryOp) (d : Datum) : Gives Scalar (Operator.unary op d) := by
  unfold Operator.unary
  split
  · trivial
  · trivial
  · trivial
  · exact .error nofun

/-- A container has no constructor for an element. -/
theorem gives_index (hs : s.Reserved) (container index : Value) :
    Gives s.Ordinary (Operator.index s container index) := by
  unfold Operator.index
  split
  · next elements i hd _ =>
    show s.Ordinary (Operator.element elements i)
    unfold Operator.element
    split
    · cases hget : elements[i.toInt.toNat]? with
      | none => exact s.ordinary_null
      | some v => exact hs.part hd (List.mem_of_getElem? hget)
    · exact s.ordinary_null
  · next entries hd =>
    split
    · next content _ =>
      show s.Ordinary (((Entries.find? content entries).map HashEntry.value).getD .null)
      cases hfind : Entries.find? content entries with
      | none => exact s.ordinary_null
      | some e => exact hs.part hd (Object.value_mem_parts (List.mem_of_find?_eq_some hfind))
    · exact .error nofun
  · exact .error nofun

theorem Keeps.ofExcept {R : Store → α → Prop} {r : Except RuntimeError α} (h : Gives (R s) r) :
    Keeps s R (Eval.ofExcept r) := by
  cases r with
  | ok a => exact pure h
  | error e => exact fail h

/-- Scalars are given as ordinary values. -/
theorem Keeps.give {d : Datum} (hd : Scalar d) : Keeps s Store.Ordinary (Eval.give d) := by
  cases d with
  | null => exact pure s.ordinary_null
  | boolean b => exact pure (s.ordinary_boolean b)
  | object o =>
    cases o with
    | integer | real | text => exact alloc ⟨NamesAre.nil, nofun⟩ nofun
    | _ => exact hd.elim

/-! ## Built-in functions -/

namespace Keeps

/-- The elements of an array are ordinary, since no array has a constructor for an element. -/
theorem elementsOf (b : Builtin) (v : Value) : Keeps s AllOrdinary (Builtin.elementsOf b v) := by
  refine datum fun hs => ?_
  split
  · next hd => exact pure fun u hu => hs.part hd hu
  · exact fail nofun

theorem lenOf (v : Value) : Keeps s Store.Ordinary (Builtin.lenOf v) := by
  refine datum fun _ => ?_
  split
  · exact integer _
  · exact integer _
  · exact integer _
  · exact fail nofun

/-- A container keeps ordinary parts and gets ordinary ones. -/
theorem addTo (target : Value) {arguments : List Value} (h : AllOrdinary s arguments) :
    Keeps s Store.Ordinary (Builtin.addTo target arguments) := by
  refine datum fun hs => ?_
  split
  · next hd =>
    refine array fun u hu => ?_
    rcases List.mem_append.1 hu with hu | hu
    · exact hs.part hd hu
    · exact h u hu
  · exact fail nofun
  · next hd =>
    refine datum fun _ => ?_
    split
    · refine hash fun e he => ?_
      rcases Entries.mem_insert he with rfl | he
      · exact ⟨h _ (by simp), h _ (by simp)⟩
      · exact ⟨hs.part hd (Object.key_mem_parts he), hs.part hd (Object.value_mem_parts he)⟩
    · exact fail nofun
  · exact fail nofun
  · exact fail nofun

/-- The elements that are left are ordinary. -/
theorem removeElement {elements : List Value} (h : AllOrdinary s elements) (position : Value) :
    Keeps s Store.Ordinary (Builtin.removeElement elements position) := by
  unfold Builtin.removeElement
  refine require (e := .emptyArray) nofun (datum fun _ => ?_)
  split
  · split
    · exact array fun u hu => h u (List.mem_of_mem_eraseIdx hu)
    · exact fail nofun
  · exact fail nofun

/-- The entries that are left are ordinary. -/
theorem removeEntry {id : ObjectId} {entries : List HashEntry} (hd : s.datum (.ref id) = .object (.hash entries))
    (key : Value) : Keeps s Store.Ordinary (Builtin.removeEntry id entries key) := by
  unfold Builtin.removeEntry
  refine require (e := .emptyHash) nofun (datum fun hs => ?_)
  split
  · next content _ =>
    split
    · have hpart : ∀ e ∈ Entries.erase content entries, s.OrdinaryEntry e := by
        intro e he
        have he := (List.mem_filter.1 he).1
        exact ⟨hs.part hd (Object.key_mem_parts he), hs.part hd (Object.value_mem_parts he)⟩
      have hlater : s.Becomes (s.write id (.hash (Entries.erase content entries))) := .erase hd content
      have hharmless := Store.harmless_hash hpart
      refine (change fun hs => ⟨hs.write hd (.hash List.filter_sublist) hharmless, hlater⟩).bind ?_
      exact fun _ t hst _ => pure (hst.ordinary (Store.ordinary_of_datum hd nofun))
    · exact fail nofun
  · exact fail nofun

/-- What is left in a container is ordinary. -/
theorem removeFrom (target key : Value) : Keeps s Store.Ordinary (Builtin.removeFrom target key) := by
  refine datum fun hs => ?_
  split
  · next hd => exact removeElement (fun u hu => hs.part hd hu) key
  · next hd => exact removeEntry hd key
  · exact fail nofun

/-- A built-in function gives back no constructor when it gets none. -/
theorem call (b : Builtin) {arguments : List Value} (h : AllOrdinary s arguments) :
    Keeps s Store.Ordinary (b.call arguments) := by
  unfold Builtin.call
  split
  · exact lenOf _
  · refine (elementsOf .first _).bind fun elements t _ helements => pure ?_
    cases elements with
    | nil => exact t.ordinary_null
    | cons v vs => exact helements v List.mem_cons_self
  · refine (elementsOf .last _).bind fun elements t _ helements => pure ?_
    cases hlast : elements.getLast? with
    | none => exact t.ordinary_null
    | some v => exact helements v (List.mem_of_getLast? hlast)
  · refine (elementsOf .rest _).bind fun elements t _ helements => ?_
    cases elements with
    | nil => exact pure t.ordinary_null
    | cons v vs => exact array fun u hu => helements u (List.mem_cons_of_mem _ hu)
  · exact addTo _ fun u hu => h u (List.mem_cons_of_mem _ hu)
  · exact removeFrom _ _
  · refine (change fun hs => ⟨hs.withLogs _ hs.request, .withLogs s _ _⟩).bind fun _ t _ _ => pure t.ordinary_null
  all_goals exact fail nofun

end Keeps

/-! ## Parts of the evaluator -/

/-- Evaluators that keep the name reserved on texts that mention names. -/
def Keeper (rec : Expr → FrameId → Eval Value) : Prop :=
  ∀ s e E, NamesAre IsName e.mentions → Keeps s Store.Ordinary (rec e E)

namespace Keeps

/-! What evaluates no expression. -/

/-- A name that is mentioned is not the reserved one, so its value is ordinary. -/
theorem readName (hx : IsName x) (E : FrameId) : Keeps s Store.Ordinary (Eval.readName x E) := by
  refine read fun hs => ?_
  split
  · next hget => exact pure (hs.get? hx hget)
  · split
    · exact alloc ⟨NamesAre.nil, nofun⟩ nofun
    · exact fail nofun

theorem readThis (hx : IsName x) (E : FrameId) : Keeps s Store.Ordinary (Eval.readThis x E) := by
  refine read fun hs => ?_
  split
  · next hget => exact pure (hs.ordinary_localValue? hx hget)
  · exact fail nofun

/-- A name that is bound gets a new value. -/
theorem update (hx : IsName x) (hv : s.Ordinary v) (h : s.update? E x v = some t) :
    Keeps s Done (MonadStateOf.set t : Eval PUnit) := by
  obtain ⟨F, -, rfl⟩ := Option.map_eq_some_iff.1 h
  exact fun hs => ⟨hs.setName F hx hv, .set s F x v, trivial⟩

/-- An ordinary value is assigned to a field of the receiver. -/
theorem updateRoot (hx : IsName x) (hv : s.Ordinary v) (h : s.updateRoot? E x v = some t) :
    Keeps s Done (MonadStateOf.set t : Eval PUnit) := by
  unfold Store.updateRoot? at h
  split at h <;> cases h
  exact fun hs => ⟨hs.setName _ hx hv, .set s _ x v, trivial⟩

/-- The object that is stepped is an integer, bound to a name that is not reserved. -/
theorem step (hx : IsName x) (up : Bool) (E : FrameId) : Keeps s Store.Ordinary (Eval.step x up E) := by
  refine read fun hs => ?_
  split
  · exact fail nofun
  next v hget =>
  have hv := hs.get? hx hget
  refine datum fun _ => ?_
  split
  · next n id hn =>
    have hinteger (m : Int64) : (Object.integer n).Becomes (.integer m) := .integer n m
    have hwrite (m : Int64) : Keeps s Done (modify (·.write id (.integer m)) : Eval Unit) :=
      change fun hs => ⟨hs.write hn (hinteger m) ⟨NamesAre.nil, nofun⟩, .write hn (hinteger m)⟩
    refine (hwrite _).bind fun _ t hst _ => ?_
    have hv := hst.ordinary hv
    have hbind : Keeps t Done (modify fun s => (s.update? E x (.ref id)).getD s : Eval Unit) := by
      refine change fun ht => ?_
      cases hupdate : t.update? E x (.ref id) with
      | none => exact ⟨ht, .refl t⟩
      | some u =>
        obtain ⟨F, -, rfl⟩ := Option.map_eq_some_iff.1 hupdate
        exact ⟨ht.setName F hx hv, .set t F x (.ref id)⟩
    exact hbind.bind fun _ u htu _ => pure (htu.ordinary hv)
  · exact fail nofun

/-- A declared function mentions names only. -/
theorem declare {decl : FunctionDecl} (hdecl : NamesAre IsName decl.mentions) (E : FrameId) :
    Keeps s Store.Ordinary (Eval.declare decl E) := by
  obtain ⟨name, literal, isPublic⟩ := decl
  rw [FunctionDecl.mentions, NamesAre.cons] at hdecl
  exact function hdecl.2

/-- The name of a loop is not reserved. -/
theorem loopFrame (hx : IsName x) (E : FrameId) : Keeps s Done (Eval.loopFrame x E) :=
  (newChild E).bind fun L t _ _ => (bindName L hx t.ordinary_null).bind fun _ _ _ _ => pure trivial

/-- What a method call runs is a function, whose text mentions names. -/
theorem findMethod (object method : String) (E : FrameId) :
    Keeps s (fun _ p => NamesAre IsName p.1.literal.mentions) (Eval.findMethod object method E) := by
  refine read fun hs => ?_
  split
  · exact fail nofun
  refine datum fun _ => ?_
  split
  · refine read fun _ => ?_
    split
    · exact fail nofun
    refine datum fun _ => ?_
    split
    · next hd =>
      refine read fun _ => ?_
      split
      · exact fail nofun
      · exact pure (hs.text hd)
    · exact fail nofun
  · exact fail nofun

section Nodes

variable {library : Library} {rec : Expr → FrameId → Eval Value} (hrec : Keeper rec)

include hrec

/-- A left side that is a name, alone or of the receiver, is not the reserved one. -/
theorem assign (target : Expr) {value : Expr} (htarget : NamesAre IsName target.mentions)
    (hvalue : NamesAre IsName value.mentions) (E : FrameId) :
    Keeps s Store.Ordinary (Eval.assign rec target value E) := by
  unfold Expr.mentions at htarget
  cases target with
  | name x =>
    have hx := (NamesAre.cons.1 htarget).1
    refine (hrec s value E hvalue).bind fun v t _ hv => read fun _ => ?_
    split
    · next hupdate => exact (update hx hv hupdate).bind fun _ u htu _ => pure (htu.ordinary hv)
    · exact fail nofun
  | thisName x =>
    have hx := (NamesAre.cons.1 htarget).1
    refine (hrec s value E hvalue).bind fun v t _ hv => read fun _ => ?_
    split
    · next hupdate => exact (updateRoot hx hv hupdate).bind fun _ u htu _ => pure (htu.ordinary hv)
    · exact fail nofun
  | _ => exact fail nofun

/-- The constructor is bound in the new frame of the class; nothing else is bound under its name. -/
theorem defineClass {decl : ClassDecl} (hdecl : NamesAre IsName decl.mentions) (E : FrameId) :
    Keeps s Done (Eval.defineClass rec decl E) := by
  obtain ⟨name, fields, methods, init⟩ := decl
  simp only [ClassDecl.mentions, NamesAre.cons, NamesAre.append, Mention.spelling] at hdecl
  obtain ⟨hname, hfields, hmethods, hinit⟩ := hdecl
  refine newRoot.bind fun C s₁ _ hC => ?_
  have hfields : Keeps s₁ Done (fields.forM fun field => do Eval.bind C field.name (← rec field.value C)) := by
    have hfields := NamesAre.fields.1 hfields
    refine forM (r := fun _ (f : FieldDecl) => NamesAre IsName f.mentions) (fun _ h => h) hfields fun t f _ hf => ?_
    obtain ⟨x, value⟩ := f
    rw [FieldDecl.mentions, NamesAre.cons] at hf
    exact (hrec t value C hf.2).bind fun v u _ hv => bindName C hf.1 hv
  refine hfields.bind fun _ s₂ h₂ _ => ?_
  have hmethods : Keeps s₂ Done (methods.forM fun method => do Eval.bind C method.name (← Eval.declare method C)) := by
    have hmethods := NamesAre.methods.1 hmethods
    refine forM (r := fun _ (m : FunctionDecl) => NamesAre IsName m.mentions) (fun _ h => h) hmethods fun t m _ hm => ?_
    have hx : IsName m.name := by
      obtain ⟨x, literal, isPublic⟩ := m
      exact (NamesAre.cons.1 hm).1
    exact (declare hm C).bind fun v u _ hv => bindName C hx hv
  refine hmethods.bind fun _ s₃ h₃ _ => ?_
  -- The fields were evaluated meanwhile; the frame is still that of a class.
  have hC := (h₂.trans h₃).isOwner hC
  have hclass (t : Store) : Keeps t Done (do Eval.bind E name (← Eval.alloc (.inst name C))) :=
    (inst name C).bind fun v u _ hv => bindName E hname hv
  cases init with
  | none => exact hclass s₃
  | some init =>
    have hinit : Keeps s₃ Store.IsConstructor (Eval.alloc (.init init C)) := by
      intro hs
      refine ⟨hs.alloc ⟨hinit, List.forall_mem_nil _⟩, .alloc s₃ _, ?_⟩
      rw [Store.IsConstructor]
      exact congrArg Datum.type Store.datum_alloc_self
    refine hinit.bind fun v t hst hv => ?_
    refine (change fun ht => ⟨ht.set ⟨.inr ⟨rfl, hv⟩, fun _ => hst.isOwner hC⟩, .set t C initName v⟩).bind ?_
    exact fun _ u _ _ => hclass u

/-- Statements that mention names only bind names only. -/
theorem stmt {st : Stmt} (hst : NamesAre IsName st.mentions) (E : FrameId) :
    Keeps s Store.Ordinary (Eval.stmt rec st E) := by
  unfold Stmt.mentions at hst
  cases st with
  | var x value =>
    obtain ⟨hx, hvalue⟩ := NamesAre.cons.1 hst
    exact (hrec s value E hvalue).bind fun v t _ hv => (bindName E hx hv).bind fun _ u _ _ => pure u.ordinary_null
  | ret value => exact (hrec s value E hst).bind fun v t _ hv => throw hv
  | expr e => exact hrec s e E hst
  | function decl =>
    have hx : IsName decl.name := by
      obtain ⟨x, literal, isPublic⟩ := decl
      exact (NamesAre.cons.1 hst).1
    exact (declare hst E).bind fun v t _ hv => (bindName E hx hv).bind fun _ u _ _ => pure u.ordinary_null
  | classDecl decl => exact (defineClass hrec hst E).bind fun _ t _ _ => pure t.ordinary_null

/-- Statement after statement, with the ordinary value of the last one. -/
theorem blockFrom {body : List Stmt} (hbody : NamesAre IsName (blockMentions body)) (E : FrameId) (hv : s.Ordinary v) :
    Keeps s Store.Ordinary (Eval.blockFrom rec v body E) := by
  induction body generalizing s v with
  | nil => exact pure hv
  | cons st body ih =>
    obtain ⟨hst, hbody⟩ := NamesAre.append.1 hbody
    exact (stmt hrec hst E).bind fun v t _ hv => ih hbody hv

theorem block {body : List Stmt} (hbody : NamesAre IsName (blockMentions body)) (E : FrameId) :
    Keeps s Store.Ordinary (Eval.block rec body E) := blockFrom hrec hbody E s.ordinary_null

/-- What a program returns is ordinary. -/
theorem program {p : Program} (hp : NamesAre IsName (blockMentions p)) (E : FrameId) :
    Keeps s Store.Ordinary (Eval.program rec p E) := catchReturn (block hrec hp E)

/-- Arguments that mention names only have ordinary values. -/
theorem exprs {es : List Expr} (hes : NamesAre IsName (exprMentions es)) (E : FrameId) :
    Keeps s AllOrdinary (Eval.exprs rec es E) := by
  induction es generalizing s with
  | nil => exact pure nofun
  | cons e es ih =>
    obtain ⟨he, hes⟩ := NamesAre.append.1 hes
    refine (hrec s e E he).bind fun v t _ hv => (ih hes).bind fun vs u htu hvs => ?_
    exact pure (List.forall_mem_cons.2 ⟨htu.ordinary hv, hvs⟩)

theorem conditional {branches : List Branch} {otherwise : Option (List Stmt)}
    (hbranches : NamesAre IsName (branchMentions branches)) (hotherwise : NamesAre IsName (otherwiseMentions otherwise))
    (E : FrameId) : Keeps s Store.Ordinary (Eval.conditional rec branches otherwise E) := by
  induction branches generalizing s with
  | nil =>
    cases otherwise with
    | none => exact pure s.ordinary_null
    | some body => exact block hrec hotherwise E
  | cons b rest ih =>
    obtain ⟨condition, body⟩ := b
    obtain ⟨hb, hrest⟩ := NamesAre.append.1 hbranches
    obtain ⟨hcondition, hbody⟩ := NamesAre.append.1 hb
    refine (hrec s condition E hcondition).bind fun c t _ _ => datum fun _ => ?_
    split
    · exact block hrec hbody E
    · exact ih hrest

/-- Parameters are names, and arguments are ordinary. -/
theorem callClosure {closure : Closure} (hclosure : NamesAre IsName closure.literal.mentions) {arguments : List Value}
    (harguments : AllOrdinary s arguments) : Keeps s Store.Ordinary (Eval.callClosure rec closure arguments) := by
  obtain ⟨⟨parameters, body⟩, G, isPublic⟩ := closure
  obtain ⟨hparameters, hbody⟩ := NamesAre.append.1 hclosure
  have hzip {t : Store} (hst : s.Becomes t) : ∀ p ∈ parameters.zip arguments, IsName p.1 ∧ t.Ordinary p.2 := by
    intro p hp
    obtain ⟨hx, hv⟩ := List.of_mem_zip (a := p.1) (b := p.2) hp
    exact ⟨List.forall_mem_map.1 hparameters p.1 hx, hst.ordinary (harguments p.2 hv)⟩
  unfold Eval.callClosure
  refine require (e := .wrongArguments _ _) nofun ((newChild G).bind fun F t hst _ => ?_)
  refine (forM (r := fun t (p : String × Value) => IsName p.1 ∧ t.Ordinary p.2) (fun h hp => ⟨hp.1, h.ordinary hp.2⟩)
    (hzip hst)
    fun u p _ hp => bindName F hp.1 hp.2).bind fun _ u _ _ => ?_
  exact catchReturn (block hrec hbody F)

/-- Functions that are called mention names only. -/
theorem apply {f : Value} {arguments : List Value} (harguments : AllOrdinary s arguments) :
    Keeps s Store.Ordinary (Eval.apply rec f arguments) := by
  refine datum fun hs => ?_
  split
  · next hd => exact callClosure hrec (hs.text hd) harguments
  · exact call _ harguments
  · exact fail nofun

/-! ## Loops -/

theorem round (hx : IsName x) {body : List Stmt} (hbody : NamesAre IsName (blockMentions body)) (L : FrameId)
    (hv : s.Ordinary v) : Keeps s Store.Ordinary (Eval.round rec x body L v) :=
  (bindName L hx hv).bind fun _ _ _ _ => block hrec hbody L

/-- The rounds of a loop over numbers, by induction on how many are left. -/
theorem countRounds (hx : IsName x) {body : List Stmt} (hbody : NamesAre IsName (blockMentions body)) (L : FrameId)
    (delta : Int64) (n : Nat) (k : Int64) (hv : s.Ordinary v) :
    Keeps s Store.Ordinary (Eval.countRounds rec x body L delta n k v) := by
  induction n generalizing s k v with
  | zero => exact pure hv
  | succ n ih =>
    refine (integer k).bind fun i t _ hi => ?_
    exact (round hrec hx hbody L hi).bind fun v u _ hv => ih _ hv

/-- The rounds of a loop over values, by induction on the list. -/
theorem valueRounds (hx : IsName x) {body : List Stmt} (hbody : NamesAre IsName (blockMentions body)) (L : FrameId)
    {vs : List Value} (hvs : AllOrdinary s vs) (hv : s.Ordinary v) :
    Keeps s Store.Ordinary (Eval.valueRounds rec x body L vs v) := by
  induction vs generalizing s v with
  | nil => exact pure hv
  | cons i vs ih =>
    obtain ⟨hi, hvs⟩ := List.forall_mem_cons.1 hvs
    exact (round hrec hx hbody L hi).bind fun v t hst hv => ih (fun u hu => hst.ordinary (hvs u hu)) hv

theorem loopBound (bound : LoopBound) {e : Expr} (he : NamesAre IsName e.mentions) (E : FrameId) :
    Keeps s Done (Eval.loopBound rec bound e E) := by
  refine (hrec s e E he).bind fun v t _ _ => datum fun _ => ?_
  split
  · exact pure trivial
  · exact fail nofun

theorem rangeFor (hx : IsName x) {start stop : Expr} {body : List Stmt} (hstart : NamesAre IsName start.mentions)
    (hstop : NamesAre IsName stop.mentions) (hbody : NamesAre IsName (blockMentions body)) (E : FrameId) :
    Keeps s Store.Ordinary (Eval.rangeFor rec x start stop body E) :=
  (loopBound hrec .start hstart E).bind fun a _ _ _ => (loopBound hrec .stop hstop E).bind fun _ _ _ _ =>
    (loopFrame hx E).bind fun L t _ _ => countRounds hrec hx hbody L _ _ a t.ordinary_null

/-- The elements of the array are ordinary. -/
theorem collectionFor (hx : IsName x) (collection : String) {body : List Stmt}
    (hbody : NamesAre IsName (blockMentions body)) (E : FrameId) :
    Keeps s Store.Ordinary (Eval.collectionFor rec x collection body E) := by
  refine read fun _ => ?_
  split
  · exact fail nofun
  · refine datum fun hs => ?_
    split
    · next elements hd =>
      refine (loopFrame hx E).bind fun L t hst _ => ?_
      exact valueRounds hrec hx hbody L (fun u hu => hst.ordinary (hs.part hd hu)) t.ordinary_null
    · exact fail nofun

/-! ## Classes and objects -/

/-- Whatever a library gives for a unit is a source. -/
theorem classOfUnit {className : String} (hname : IsName className) (E : FrameId) :
    Keeps s Store.Ordinary (Eval.classOfUnit library rec className E) := by
  have hrequest : Keeps s Done (modify (·.request className) : Eval Unit) := by
    refine change fun hs => ⟨hs.withLogs _ fun x hx => ?_, .withLogs s _ _⟩
    rcases List.mem_append.1 hx with hx | hx
    · exact hs.request x hx
    · exact List.mem_singleton.1 hx ▸ hname
  refine hrequest.bind fun _ t _ _ => ?_
  split
  · exact fail nofun
  · refine (program hrec (parseSource_names _) E).bind fun _ u _ _ => read fun hu => ?_
    split
    · next hget => exact pure (hu.get? hname hget)
    · exact fail nofun

/-- A class is in scope or comes from a unit, which is a source and so mentions names only. -/
theorem findClass {className : String} (hname : IsName className) (E : FrameId) :
    Keeps s Store.Ordinary (Eval.findClass library rec className E) := by
  refine read fun hs => ?_
  split
  · next hget => exact pure (hs.get? hname hget)
  · exact classOfUnit hrec hname E

/-- Parameters are names, also those for fields, and arguments are ordinary. -/
theorem initArguments (className : String) (I F : FrameId) {arguments : List (ConstructorParam × Expr)}
    (harguments : ∀ p ∈ arguments, IsName p.1.name ∧ NamesAre IsName p.2.mentions) (E : FrameId) :
    Keeps s Done (Eval.initArguments rec className I F arguments E) := by
  induction arguments generalizing s with
  | nil => exact pure trivial
  | cons p rest ih =>
    obtain ⟨p, argument⟩ := p
    obtain ⟨⟨hx, hargument⟩, hrest⟩ := List.forall_mem_cons.1 harguments
    unfold Eval.initArguments
    split
    · refine (hrec s argument I hargument).bind fun v t _ hv => read fun _ => ?_
      split
      · next hupdate => exact (update hx hv hupdate).bind fun _ u _ _ => ih hrest
      · exact (fail (R := fun _ _ => False) (e := .notAField _ _) nofun).bind fun _ _ _ h => h.elim
    · exact (hrec s argument E hargument).bind fun v t _ hv => (bindName F hx hv).bind fun _ u _ _ => ih hrest

/-- A constructor in the frame of an instance binds names only. -/
theorem construct (className : String) {init : Constructor} (hinit : NamesAre IsName init.mentions) (I : FrameId)
    {arguments : List Expr} (harguments : NamesAre IsName (exprMentions arguments)) (E : FrameId) :
    Keeps s Done (Eval.construct rec className init I arguments E) := by
  obtain ⟨parameters, body⟩ := init
  obtain ⟨hparameters, hbody⟩ := NamesAre.append.1 hinit
  have hzip : ∀ p ∈ parameters.zip arguments, IsName p.1.name ∧ NamesAre IsName p.2.mentions := by
    intro p hp
    obtain ⟨hx, he⟩ := List.of_mem_zip (a := p.1) (b := p.2) hp
    exact ⟨List.forall_mem_map.1 hparameters p.1 hx, NamesAre.exprs.1 harguments p.2 he⟩
  unfold Eval.construct
  refine require (e := .wrongArguments _ _) nofun ((newChild I).bind fun F t _ _ => ?_)
  refine (initArguments hrec className I F hzip E).bind fun _ u _ _ => ?_
  exact (catchReturn (block hrec hbody F)).bind fun _ _ _ _ => pure trivial

/-- What is bound under the name of constructors is one. -/
theorem initInstance (className : String) (I : FrameId) {arguments : List Expr}
    (harguments : NamesAre IsName (exprMentions arguments)) (E : FrameId) :
    Keeps s Done (Eval.initInstance rec className I arguments E) := by
  refine read fun hs => ?_
  split
  · split
    · exact fail nofun
    · exact pure trivial
  · next init hget =>
    -- The lookup goes through the reserved name, so the case of another value does not arise.
    refine datum fun _ => ?_
    obtain ⟨constructor, C, hd⟩ := (hs.get?_initName hget).cases
    rw [hd]
    exact construct hrec className (hs.text hd) I harguments E

/-- An instance gets the reserved name from its class, bound to a constructor. -/
theorem instantiate (className name : String) (T : FrameId) {arguments : List Expr}
    (harguments : NamesAre IsName (exprMentions arguments)) (E : FrameId) :
    Keeps s Store.Ordinary (Eval.instantiate rec className name T arguments E) := by
  refine (ofStore (Store.Keeps.instanceFrame T)).bind fun I t _ _ => ?_
  exact (initInstance hrec className I harguments E).bind fun _ u _ _ => inst name I

/-- The class of an instance is an ordinary value. -/
theorem makeInstance {className : String} (hname : IsName className) {arguments : List Expr}
    (harguments : NamesAre IsName (exprMentions arguments)) (E : FrameId) :
    Keeps s Store.Ordinary (Eval.makeInstance library rec className arguments E) := by
  refine (findClass hrec hname E).bind fun v t _ _ => datum fun _ => ?_
  split
  · exact instantiate hrec className _ _ harguments E
  · exact fail nofun

/-- Methods mention names only. -/
theorem callMethod (object method : String) {arguments : List Expr}
    (harguments : NamesAre IsName (exprMentions arguments)) (E : FrameId) :
    Keeps s Store.Ordinary (Eval.callMethod rec object method arguments E) :=
  (findMethod object method E).bind fun p _ _ hp => (exprs hrec harguments p.2).bind fun _ _ _ hvs =>
    callClosure hrec hp hvs

end Nodes

/-- The keys and values of a literal are results, so they are ordinary. -/
theorem hashPairsWith {rec : List Value → Expr → FrameId → Eval Value} (hrec : ∀ keys, Keeper (rec keys))
    (keys : List Value) {pairs : List KeyValue} (hpairs : NamesAre IsName (pairMentions pairs))
    {entries : List HashEntry} (hentries : ∀ e ∈ entries, s.OrdinaryEntry e) (E : FrameId) :
    Keeps s Store.Ordinary (Eval.hashPairsWith rec keys pairs entries E) := by
  induction pairs generalizing s entries with
  | nil => exact hash hentries
  | cons p rest ih =>
    obtain ⟨key, value⟩ := p
    obtain ⟨hp, hrest⟩ := NamesAre.append.1 hpairs
    obtain ⟨hkey, hvalue⟩ := NamesAre.append.1 hp
    refine (hrec _ s key E hkey).bind fun k t hst hk => datum fun _ => ?_
    split
    · exact fail nofun
    · refine (hrec _ t value E hvalue).bind fun v u htu hv => ih hrest fun e he => ?_
      rcases Entries.mem_insert he with rfl | he
      · exact ⟨htu.ordinary hk, hv⟩
      · exact (hst.trans htu).ordinaryEntry (hentries e he)

/-- One expression, when those inside it keep the name reserved. -/
theorem node {library : Library} {rec : Expr → FrameId → Eval Value} (hrec : Keeper rec) {e : Expr}
    (he : NamesAre IsName e.mentions) (E : FrameId) : Keeps s Store.Ordinary (Eval.node library rec e E) := by
  unfold Expr.mentions at he
  cases e with
  | null => exact pure s.ordinary_null
  | boolean b => exact pure (s.ordinary_boolean b)
  | integer n => exact integer n
  | real | text => exact alloc ⟨NamesAre.nil, nofun⟩ nofun
  | name x => exact readName (NamesAre.cons.1 he).1 E
  | thisName x => exact readThis (NamesAre.cons.1 he).1 E
  | unary op operand =>
    refine (hrec s operand E he).bind fun v t _ _ => datum fun _ => ?_
    exact (ofExcept (R := fun _ => Scalar) (gives_unary op _)).bind fun d u _ hd => give hd
  | binary op left right =>
    obtain ⟨hleft, hright⟩ := NamesAre.append.1 he
    cases op with
    | assign => exact assign hrec left hleft hright E
    | _ =>
      refine (hrec s left E hleft).bind fun l t _ _ => (hrec t right E hright).bind fun r u _ _ => read fun _ => ?_
      exact (ofExcept (R := fun _ => Scalar) (gives_binary u _ l r)).bind fun d _ _ hd => give hd
  | conditional branches otherwise =>
    obtain ⟨hbranches, hotherwise⟩ := NamesAre.append.1 he
    exact conditional hrec hbranches hotherwise E
  | function literal => exact function he
  | call f arguments =>
    obtain ⟨hf, harguments⟩ := NamesAre.append.1 he
    refine (hrec s f E hf).bind fun v t _ _ => (exprs hrec harguments E).bind fun vs u _ hvs => ?_
    exact apply hrec hvs
  | array elements => exact (exprs hrec he E).bind fun vs t _ hvs => array hvs
  | index container index =>
    obtain ⟨hcontainer, hindex⟩ := NamesAre.append.1 he
    refine (hrec s container E hcontainer).bind fun c t _ _ => (hrec t index E hindex).bind fun i u _ _ => ?_
    exact read fun hu => ofExcept (gives_index hu c i)
  | hash pairs =>
    show Keeps s Store.Ordinary (Eval.hashPairs rec pairs [] E)
    rw [← hashPairsWith_const rec []]
    exact hashPairsWith (fun _ => hrec) [] he (List.forall_mem_nil _) E
  | rangeFor x start stop body =>
    obtain ⟨hx, hparts⟩ := NamesAre.cons.1 he
    obtain ⟨hstart, hparts⟩ := NamesAre.append.1 hparts
    obtain ⟨hstop, hbody⟩ := NamesAre.append.1 hparts
    exact rangeFor hrec hx hstart hstop hbody E
  | collectionFor x collection body =>
    obtain ⟨hx, hparts⟩ := NamesAre.cons.1 he
    exact collectionFor hrec hx collection (NamesAre.cons.1 hparts).2 E
  | new className arguments =>
    obtain ⟨hname, hparts⟩ := NamesAre.cons.1 he
    exact makeInstance hrec hname (NamesAre.cons.1 hparts).2 E
  | methodCall object method arguments =>
    obtain ⟨-, hparts⟩ := NamesAre.cons.1 he
    exact callMethod hrec object method (NamesAre.cons.1 hparts).2 E
  | increment x => exact step (NamesAre.cons.1 he).1 true E
  | decrement x => exact step (NamesAre.cons.1 he).1 false E

end Keeps

/-! ## Evaluations of any depth -/

/-- Evaluations keep the name of constructors reserved, up to wherever they are stopped. -/
theorem keeper_exprUntil (library : Library) (stop : List Value → Expr → FrameId → Store → Bool) (n : Nat)
    (keys : List Value) : Keeper (exprUntil library stop n keys) := by
  induction n generalizing keys with
  | zero => exact fun s e E _ => Keeps.throw trivial
  | succ n ih =>
    intro s e E he hs
    cases hstop : stop keys e E s with
    | true =>
      rw [exprUntil_stopped hstop]
      exact ⟨hs, .refl s, trivial⟩
    | false =>
      -- A hash literal hands on the keys that it has in hand, which `node` does not do.
      by_cases hhash : ∃ pairs, e = .hash pairs
      · obtain ⟨pairs, rfl⟩ := hhash
        rw [exprUntil_hash hstop]
        exact Keeps.hashPairsWith ih keys he (List.forall_mem_nil _) E hs
      · rw [exprUntil_node hstop fun pairs h => hhash ⟨pairs, h⟩]
        exact Keeps.node (ih keys) he E hs

end Eval

end Pron
