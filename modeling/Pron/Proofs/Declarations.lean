import Pron.Proofs.Computation
import Pron.Proofs.Growth
import Pron.Proofs.Privacy.Mentions

/-!
# Where a name comes from

An evaluation in a frame binds new names there only where the text says so: the names that `var`, `func` and `class`
statements declare which stand directly in the text, conditionals included, and those which stand likewise in the units
that the text loads (`Declares`). Loops, calls, classes and instances have frames of their own, and assignments and
steps of integers change what is bound. In other frames, and in calls, an evaluation binds no new names in the frame at
all (`Eval.names_declared`). The frames of classes and instances are left out: they are filled from elsewhere, by class
statements and by the arguments of methods and constructors.
-/

namespace Pron

/-! ## Texts -/

mutual

/-- What an expression declares in the frame where it is evaluated, and the classes that it makes instances of there.
The bodies of loops and functions are run in other frames, the arguments of a method in the frame of its instance. -/
def Expr.declared : Expr → List Mention
  | .null | .name _ | .thisName _ | .integer _ | .real _ | .text _ | .boolean _ | .increment _ | .decrement _ => []
  | .unary _ operand => operand.declared
  | .binary _ left right => left.declared ++ right.declared
  | .conditional branches otherwise => declaredInBranches branches ++ declaredInOtherwise otherwise
  | .function _ => []
  | .call function arguments => function.declared ++ declaredInExprs arguments
  | .array elements => declaredInExprs elements
  | .index container index => container.declared ++ index.declared
  | .hash pairs => declaredInPairs pairs
  | .rangeFor _ start stop _ => start.declared ++ stop.declared
  | .collectionFor _ _ _ => []
  | .new className arguments => .unit className :: declaredInExprs arguments
  | .methodCall _ _ _ => []

/-- What a statement declares in the frame where it is run. The body of a class is run in a frame of its own. -/
def Stmt.declared : Stmt → List Mention
  | .var x value => .name x :: value.declared
  | .ret value => value.declared
  | .expr e => e.declared
  | .function decl => [.name decl.name]
  | .classDecl decl => [.name decl.name]

/-- What a block or program declares. -/
def declaredInBlock : List Stmt → List Mention
  | [] => []
  | st :: rest => st.declared ++ declaredInBlock rest

def declaredInExprs : List Expr → List Mention
  | [] => []
  | e :: rest => e.declared ++ declaredInExprs rest

def declaredInBranches : List Branch → List Mention
  | [] => []
  | b :: rest => b.declared ++ declaredInBranches rest

def Branch.declared : Branch → List Mention
  | ⟨condition, body⟩ => condition.declared ++ declaredInBlock body

def declaredInOtherwise : Option (List Stmt) → List Mention
  | none => []
  | some body => declaredInBlock body

def declaredInPairs : List KeyValue → List Mention
  | [] => []
  | p :: rest => p.declared ++ declaredInPairs rest

def KeyValue.declared : KeyValue → List Mention
  | ⟨key, value⟩ => key.declared ++ value.declared

end

theorem declared_subset_exprs {es : List Expr} {e : Expr} (he : e ∈ es) : e.declared ⊆ declaredInExprs es := by
  induction es with
  | nil => cases he
  | cons e' es ih =>
    unfold declaredInExprs
    rcases List.mem_cons.1 he with rfl | he
    · exact List.subset_append_left _ _
    · exact List.Subset.trans (ih he) (List.subset_append_right _ _)

/-- The names that a text declares, when some units were asked for: those that it declares itself, and those of the
units that it loads. -/
inductive Declares (library : Library) (asked : List String) : List Mention → String → Prop
  | name {ms : List Mention} {x : String} : .name x ∈ ms → Declares library asked ms x
  | unit {ms : List Mention} {className source x : String} : .unit className ∈ ms → className ∈ asked →
      library className = .ok source → Declares library asked (declaredInBlock (parseSource source).program) x →
      Declares library asked ms x

namespace Declares

variable {library : Library} {asked asked' : List String} {ms ms' : List Mention} {x : String}

/-- More text and more units declare more names. -/
theorem mono (h : Declares library asked ms x) (hasked : asked ⊆ asked') (hms : ms ⊆ ms') :
    Declares library asked' ms' x := by
  induction h generalizing ms' with
  | name hx => exact .name (hms hx)
  | unit hunit hclass hsource _ ih => exact .unit (hms hunit) (hasked hclass) hsource (ih (List.Subset.refl _))

/-- No text, no names. -/
theorem not_nil : ¬Declares library asked [] x := by
  rintro (hx | hunit) <;> contradiction

end Declares

/-! ## Stores -/

namespace Store

variable {library : Library} {E F I : FrameId} {ms ms' : List Mention} {s t u : Store} {x : String} {v : Value}
  {o : Object}

/-- A frame that is there and is not the one of a class or an instance. -/
structure Unowned (s : Store) (E : FrameId) : Prop where
  hasFrame : s.HasFrame E
  owner {v : Value} {className : String} {I : FrameId} : s.datum v = .object (.inst className I) → I ≠ E

/-- What becomes of the names of a frame: they are kept, and the new ones are declared in a text or in units that it
asks for. -/
structure Gains (library : Library) (E : FrameId) (ms : List Mention) (s t : Store) : Prop where
  unowned : t.Unowned E
  kept {x : String} : (s.localValue? E x).isSome → (t.localValue? E x).isSome
  gained : ∃ asked, t.requests = s.requests ++ asked ∧
    ∀ x, (t.localValue? E x).isSome → (s.localValue? E x).isSome ∨ Declares library asked ms x

namespace Gains

/-- Nothing is asked for, and the names of the frame are the same. -/
theorem of_same (hunowned : t.Unowned E) (hrequests : t.requests = s.requests)
    (hnames : ∀ x, (t.localValue? E x).isSome = (s.localValue? E x).isSome) : Gains library E ms s t where
  unowned := hunowned
  kept {x} := fun hx => (hnames x).trans hx
  gained := ⟨[], by rw [hrequests, List.append_nil], fun x hx => .inl ((hnames x).symm.trans hx)⟩

theorem refl (hs : s.Unowned E) : Gains library E ms s s := of_same hs rfl fun _ => rfl

/-- Names are gained step by step. -/
theorem trans (h : Gains library E ms s t) (h' : Gains library E ms t u) : Gains library E ms s u where
  unowned := h'.unowned
  kept hx := h'.kept (h.kept hx)
  gained := by
    obtain ⟨asked, hrequests, hnew⟩ := h.gained
    obtain ⟨asked', hrequests', hnew'⟩ := h'.gained
    refine ⟨asked ++ asked', by rw [hrequests', hrequests, List.append_assoc], fun x hx => ?_⟩
    rcases hnew' x hx with hx | hx
    · exact (hnew x hx).imp_right (·.mono (List.subset_append_left _ _) (List.Subset.refl _))
    · exact .inr (hx.mono (List.subset_append_right _ _) (List.Subset.refl _))

/-- A text that declares nothing adds no names. -/
theorem names_eq (h : Gains library E [] s t) (x : String) :
    (t.localValue? E x).isSome = (s.localValue? E x).isSome := by
  obtain ⟨_, -, hnew⟩ := h.gained
  exact Bool.eq_iff_iff.2 ⟨fun hx => (hnew x hx).resolve_right Declares.not_nil, h.kept⟩

/-- What only computes gains no names. -/
theorem of_outline (hs : s.Unowned E) (h : t.outline = s.outline) : Gains library E ms s t := by
  obtain ⟨hframes, hrequests, hplaced⟩ := outline_eq_iff.1 h
  refine of_same ⟨?_, fun {v className I} hv => ?_⟩ hrequests fun x => ?_
  · have hE := hs.hasFrame
    unfold HasFrame at hE ⊢
    rwa [hframes]
  · have hinst : t.placed? v = some (.inst className I) := placed?_eq_some.2 ⟨hv, rfl⟩
    rw [hplaced] at hinst
    exact hs.owner (placed?_eq_some.1 hinst).1
  · rw [localValue?, localValue?, hframes]

/-- Any object may be made, but no instance with this frame. -/
theorem alloc (hs : s.Unowned E) (ho : ∀ className, o ≠ .inst className E) : Gains library E ms s (s.alloc o).2 := by
  refine of_same ⟨hs.hasFrame, fun {v className I} hv => ?_⟩ rfl fun _ => rfl
  rcases datum_alloc_cases hv with ⟨-, rfl⟩ | hv
  · rintro rfl
    exact ho className rfl
  · exact hs.owner hv

/-- A new frame is another one. -/
theorem newFrame (hs : s.Unowned E) (f : Frame) : Gains library E ms s (s.newFrame f).2 :=
  of_same ⟨hasFrame_newFrame hs.hasFrame, hs.owner⟩ rfl fun x => by
    rw [localValue?_eq, localValue?_eq, bindings_newFrame hs.hasFrame]

/-- A name may be bound in another frame, and in this one when it is declared. -/
theorem set (hs : s.Unowned E) (h : F = E → .name x ∈ ms) (v : Value) : Gains library E ms s (s.set F x v) where
  unowned := ⟨hasFrame_set.2 hs.hasFrame, hs.owner⟩
  kept := (Becomes.set s F x v).bound
  gained := by
    refine ⟨[], (List.append_nil _).symm, fun y hy => ?_⟩
    by_cases hF : E ≠ F ∨ y ≠ x
    · rw [localValue?_set_of_ne hF] at hy
      exact .inl hy
    · obtain ⟨rfl, rfl⟩ : E = F ∧ y = x := by simpa using hF
      exact .inr (.name (h rfl))

/-- A name that is bound may get another value. -/
theorem rebind (hs : s.Unowned E) (hx : (s.localValue? F x).isSome) (v : Value) : Gains library E ms s (s.set F x v) :=
  of_same ⟨hasFrame_set.2 hs.hasFrame, hs.owner⟩ rfl ((rebound_set hx).isSome_localValue? hx E)

/-- A unit is asked for and run in some frame; when it is this one, the text loads the unit. -/
theorem unit {className source : String} (h : F = E → .unit className ∈ ms) (hsource : library className = .ok source)
    (hrun : ∀ ms', (F = E → declaredInBlock (parseSource source).program ⊆ ms') →
      Gains library E ms' (s.request className) t) : Gains library E ms s t := by
  have hcons {asked : List String} (hrequests : t.requests = (s.request className).requests ++ asked) :
      t.requests = s.requests ++ className :: asked := hrequests.trans (List.append_assoc _ [className] asked)
  by_cases hF : F = E
  · obtain ⟨hunowned, hkept, asked, hrequests, hnew⟩ := hrun _ fun _ => List.Subset.refl _
    refine ⟨hunowned, hkept, className :: asked, hcons hrequests, fun x hx => (hnew x hx).imp_right fun hx => ?_⟩
    exact .unit (h hF) List.mem_cons_self hsource (hx.mono (List.subset_cons_self _ _) (List.Subset.refl _))
  · obtain ⟨hunowned, hkept, asked, hrequests, hnew⟩ := hrun [] fun h => absurd h hF
    refine ⟨hunowned, hkept, className :: asked, hcons hrequests, fun x hx => ?_⟩
    exact .inl ((hnew x hx).resolve_right Declares.not_nil)

theorem copyFrame (hs : s.Unowned E) (T : FrameId) : Gains library E ms s (Store.copyFrame T s).2 :=
  have hcopies : Gains library E ms s _ := of_outline hs (outline_copyBindings (s.bindings T) s)
  hcopies.trans (newFrame hcopies.unowned _)

end Gains

/-- The copy of a frame is another frame. -/
theorem copyFrame_ne (hE : s.HasFrame E) (T : FrameId) : (copyFrame T s).1 ≠ E := by
  rintro rfl
  unfold HasFrame at hE
  rw [← frames_copyBindings (s.bindings T) s] at hE
  exact Nat.lt_irrefl _ hE

end Store

/-! ## Evaluations -/

namespace Eval

variable {library : Library} {E F : FrameId} {ms ms' : List Mention} {s t : Store} {x : String} {α β : Type}

/-- An evaluation adds to a frame only names that are declared in a text. -/
def Adds (library : Library) (E : FrameId) (ms : List Mention) (s : Store) (x : Eval α) : Prop :=
  s.Unowned E → s.Gains library E ms (finalStore (x s))

/-- What a text declares that is evaluated in `F` is listed, if `F` is the frame that matters. -/
def Listed (E F : FrameId) (ms declared : List Mention) : Prop := F = E → declared ⊆ ms

namespace Listed

theorem elsewhere (h : F ≠ E) : Listed E F ms ms' := fun hF => absurd hF h

theorem append {as bs : List Mention} (h : Listed E F ms (as ++ bs)) : Listed E F ms as ∧ Listed E F ms bs :=
  ⟨fun hF => (List.append_subset.1 (h hF)).1, fun hF => (List.append_subset.1 (h hF)).2⟩

theorem cons {m : Mention} {as : List Mention} (h : Listed E F ms (m :: as)) : (F = E → m ∈ ms) ∧ Listed E F ms as :=
  ⟨fun hF => (List.cons_subset.1 (h hF)).1, fun hF => (List.cons_subset.1 (h hF)).2⟩

end Listed

namespace Adds

theorem pure (a : α) : Adds library E ms s (Pure.pure a) := .refl

theorem throw (stop : Stop) : Adds library E ms s (MonadExcept.throw stop : Eval α) := .refl

theorem fail (e : RuntimeError) : Adds library E ms s (Eval.fail e : Eval α) := .refl

/-- What only computes adds no names. -/
theorem computes {x : Eval α} (h : Computes s x) : Adds library E ms s x := fun hs => .of_outline hs h

/-- Both evaluations add what the text lists. -/
theorem bind {x : Eval α} {f : α → Eval β} (hx : Adds library E ms s x)
    (hf : ∀ a t, x s = .ok a t → Adds library E ms t (f a)) : Adds library E ms s (x >>= f) := by
  intro hs
  have h := hx hs
  cases hr : x s with
  | ok a t =>
    rw [hr] at h
    rw [bind_of_ok hr]
    exact h.trans (hf a t hr h.unowned)
  | error stop t =>
    rw [hr] at h
    rw [bind_of_error hr]
    exact h

/-- The evaluation may depend on the store. -/
theorem read {f : Store → Eval β} (h : Adds library E ms s (f s)) : Adds library E ms s (get >>= f) := h

/-- The evaluation may depend on what a value is. -/
theorem datum {v : Value} {f : Datum → Eval β} (h : Adds library E ms s (f (s.datum v))) :
    Adds library E ms s (Eval.datum v >>= f) := h

theorem alloc {o : Object} (ho : ∀ className, o ≠ .inst className E) : Adds library E ms s (Eval.alloc o) :=
  fun hs => .alloc hs ho

/-- A name that is bound in the frame must be listed. -/
theorem bindName (h : F = E → .name x ∈ ms) (v : Value) : Adds library E ms s (Eval.bind F x v) :=
  fun hs => .set hs h v

/-- In another frame any name may be bound. -/
theorem bindElsewhere (hF : F ≠ E) (x : String) (v : Value) : Adds library E ms s (Eval.bind F x v) :=
  bindName (fun h => absurd h hF) v

/-- A class or an instance with another frame. -/
theorem inst (className : String) (hF : F ≠ E) : Adds library E ms s (Eval.alloc (.inst className F)) := by
  refine alloc fun _ h => ?_
  cases h
  exact hF rfl

/-- A value is bound when it is there. -/
theorem bindResult {y : Eval Value} (hy : Adds library E ms s y) (h : F = E → .name x ∈ ms) :
    Adds library E ms s (do Eval.bind F x (← y)) := hy.bind fun v _ _ => bindName h v

theorem update {v : Value} (ht : s.update? F x v = some t) : Adds library E ms s (MonadStateOf.set t : Eval PUnit) := by
  intro hs
  obtain ⟨G, hG, rfl⟩ := Option.map_eq_some_iff.1 ht
  exact .rebind hs (Store.bound_of_binder? hG) v

/-- An assignment binds no new name. -/
theorem updateRoot {v : Value} (ht : s.updateRoot? F x v = some t) :
    Adds library E ms s (MonadStateOf.set t : Eval PUnit) := by
  intro hs
  unfold Store.updateRoot? at ht
  split at ht
  · next hx =>
    cases ht
    exact .rebind hs hx v
  · cases ht

theorem catchReturn {x : Eval Value} (hx : Adds library E ms s x) : Adds library E ms s (Eval.catchReturn x) := by
  intro hs
  have h := hx hs
  unfold Eval.catchReturn
  cases hr : x s with
  | ok v t =>
    rw [hr] at h
    exact h
  | error stop t =>
    rw [hr] at h
    cases stop <;> exact h

theorem forM {as : List α} {f : α → Eval Unit} (hf : ∀ a t, Adds library E ms t (f a)) :
    Adds library E ms s (as.forM f) := by
  induction as generalizing s with
  | nil => exact pure ()
  | cons a as ih => exact (hf a s).bind fun _ t _ => ih

/-- What is done only when a condition is met. -/
theorem require {c : Prop} [Decidable c] {e : RuntimeError} {f : Unit → Eval β} (hf : Adds library E ms s (f ())) :
    Adds library E ms s (if c then Eval.fail e >>= f else f ()) := by
  split
  · exact .refl
  · exact hf

/-! ## New frames -/

/-- What goes on in a frame that was made goes on in another frame. -/
theorem frame_bind {x : Eval FrameId} {f : FrameId → Eval β} (hx : Adds library E ms s x)
    (hnew : ∀ G t, s.Unowned E → x s = .ok G t → G ≠ E) (hf : ∀ G t, G ≠ E → Adds library E ms t (f G)) :
    Adds library E ms s (x >>= f) := fun hs => hx.bind (fun G t hG => hf G t (hnew G t hs hG)) hs

theorem newFrame_bind (frame : Frame) {f : FrameId → Eval β} (hf : ∀ G t, G ≠ E → Adds library E ms t (f G)) :
    Adds library E ms s (modifyGet (·.newFrame frame) >>= f) := by
  refine frame_bind (fun hs => .newFrame hs frame) (fun G t hs hG => ?_) hf
  cases hG
  rintro rfl
  exact Nat.lt_irrefl _ hs.hasFrame

/-- The name of a loop is bound in a frame of its own. -/
theorem loopFrame_bind {f : FrameId → Eval β} (hf : ∀ L t, L ≠ E → Adds library E ms t (f L)) :
    Adds library E ms s (Eval.loopFrame x F >>= f) := by
  unfold Eval.loopFrame
  rw [bind_assoc]
  refine newFrame_bind ⟨some F, []⟩ fun L t hL => ?_
  rw [bind_assoc]
  exact (bindElsewhere hL x .null).bind fun _ t _ => hf L t hL

/-- The frame of an instance and the functions in it are new. -/
theorem instanceFrame_bind (T : FrameId) {f : FrameId → Eval β} (hf : ∀ I t, I ≠ E → Adds library E ms t (f I)) :
    Adds library E ms s (Eval.ofStore (Store.instanceFrame T) >>= f) := by
  unfold Store.instanceFrame
  rw [ofStore_bind, bind_assoc]
  refine frame_bind (fun hs => .copyFrame hs T) (fun I t hs hI => ?_) fun I t hI => ?_
  · cases hI
    exact Store.copyFrame_ne hs.hasFrame T
  rw [ofStore_read, bind_assoc]
  refine read ?_
  rw [ofStore_bind, bind_assoc, ofStore_forM]
  refine (forM fun p t => ?_).bind fun _ t _ => hf I t hI
  obtain ⟨x, closure⟩ := p
  dsimp only
  rw [ofStore_bind]
  exact bindResult (alloc nofun) fun h => absurd h hI

end Adds

/-! ## Parts of the evaluator -/

/-- Evaluators that add only what is declared. -/
def AddsRec (library : Library) (E : FrameId) (rec : Expr → FrameId → Eval Value) : Prop :=
  ∀ ms s e F, Listed E F ms e.declared → Adds library E ms s (rec e F)

namespace Adds

variable {rec : Expr → FrameId → Eval Value}

theorem readThis (x : String) (F : FrameId) : Adds library E ms s (Eval.readThis x F) := by
  refine read ?_
  split
  · exact pure _
  · exact fail _

theorem declare (decl : FunctionDecl) (F : FrameId) : Adds library E ms s (Eval.declare decl F) := alloc nofun

variable (hrec : AddsRec library E rec)

include hrec

theorem assign (target : Expr) {value : Expr} (hvalue : Listed E F ms value.declared) :
    Adds library E ms s (Eval.assign rec target value F) := by
  cases target with
  | name x =>
    refine (hrec ms s value F hvalue).bind fun v t _ => read ?_
    split
    · next hu => exact (update hu).bind fun _ _ _ => pure _
    · exact fail _
  | thisName x =>
    refine (hrec ms s value F hvalue).bind fun v t _ => read ?_
    split
    · next hu => exact (updateRoot hu).bind fun _ _ _ => pure _
    · exact fail _
  | _ => exact fail _

/-- A class is filled in a frame of its own, and bound in the frame where it is declared. -/
theorem defineClass (decl : ClassDecl) (hname : F = E → .name decl.name ∈ ms) :
    Adds library E ms s (Eval.defineClass rec decl F) := by
  refine newFrame_bind ⟨none, []⟩ fun C t hC => ?_
  have hmember (x : String) : C = E → .name x ∈ ms := fun h => absurd h hC
  have hfields : Adds library E ms t (decl.fields.forM fun field => do Eval.bind C field.name (← rec field.value C)) :=
    forM fun field t => bindResult (hrec ms t field.value C (.elsewhere hC)) (hmember _)
  have hmethods (t : Store) :
      Adds library E ms t (decl.methods.forM fun method => do Eval.bind C method.name (← Eval.declare method C)) :=
    forM fun method t => bindResult (declare method C) (hmember _)
  have hclass (t : Store) : Adds library E ms t (do Eval.bind F decl.name (← Eval.alloc (.inst decl.name C))) :=
    bindResult (inst decl.name hC) hname
  refine hfields.bind fun _ t _ => (hmethods t).bind fun _ t _ => ?_
  dsimp only
  cases decl.init with
  | none => exact hclass t
  | some init =>
    exact (computes (.alloc rfl)).bind fun v t _ => (bindElsewhere hC _ v).bind fun _ t _ => hclass t

/-- A statement adds the name it declares and those of its parts. -/
theorem stmt (st : Stmt) (hst : Listed E F ms st.declared) : Adds library E ms s (Eval.stmt rec st F) := by
  unfold Stmt.declared at hst
  cases st with
  | var x value =>
    obtain ⟨hname, hvalue⟩ := hst.cons
    exact (hrec ms s value F hvalue).bind fun v t _ => (bindName hname v).bind fun _ _ _ => pure _
  | ret value => exact (hrec ms s value F hst).bind fun v _ _ => throw _
  | expr e => exact hrec ms s e F hst
  | function decl => exact (declare decl F).bind fun v t _ => (bindName hst.cons.1 v).bind fun _ _ _ => pure _
  | classDecl decl => exact (defineClass hrec decl hst.cons.1).bind fun _ _ _ => pure _

/-- A block adds what its statements declare. -/
theorem blockFrom (last : Value) (body : List Stmt) (hbody : Listed E F ms (declaredInBlock body)) :
    Adds library E ms s (Eval.blockFrom rec last body F) := by
  induction body generalizing s last with
  | nil => exact pure _
  | cons st body ih =>
    obtain ⟨hst, hrest⟩ := Listed.append hbody
    exact (stmt hrec st hst).bind fun v t _ => ih v hrest

theorem block (body : List Stmt) (hbody : Listed E F ms (declaredInBlock body)) :
    Adds library E ms s (Eval.block rec body F) := blockFrom hrec .null body hbody

theorem exprs (es : List Expr) (hes : Listed E F ms (declaredInExprs es)) :
    Adds library E ms s (Eval.exprs rec es F) := by
  induction es generalizing s with
  | nil => exact pure _
  | cons e es ih =>
    obtain ⟨he, hrest⟩ := Listed.append hes
    exact (hrec ms s e F he).bind fun v t _ => (ih hrest).bind fun vs _ _ => pure _

/-- The blocks of a conditional run in the frame around it. -/
theorem conditional (branches : List Branch) (otherwise : Option (List Stmt))
    (hbranches : Listed E F ms (declaredInBranches branches))
    (hotherwise : Listed E F ms (declaredInOtherwise otherwise)) :
    Adds library E ms s (Eval.conditional rec branches otherwise F) := by
  induction branches generalizing s with
  | nil =>
    cases otherwise with
    | none => exact pure _
    | some body => exact block hrec body hotherwise
  | cons b rest ih =>
    obtain ⟨condition, body⟩ := b
    obtain ⟨hbranch, hrest⟩ := Listed.append hbranches
    obtain ⟨hcondition, hbody⟩ := Listed.append hbranch
    refine (hrec ms s condition F hcondition).bind fun c t _ => datum ?_
    split
    · exact block hrec body hbody
    · exact ih hrest

theorem hashPairs (pairs : List KeyValue) (entries : List HashEntry) (hpairs : Listed E F ms (declaredInPairs pairs)) :
    Adds library E ms s (Eval.hashPairs rec pairs entries F) := by
  induction pairs generalizing s entries with
  | nil => exact alloc nofun
  | cons p rest ih =>
    obtain ⟨key, value⟩ := p
    obtain ⟨hpair, hrest⟩ := Listed.append hpairs
    obtain ⟨hkey, hvalue⟩ := Listed.append hpair
    refine (hrec ms s key F hkey).bind fun k t _ => datum ?_
    split
    · exact fail _
    · exact (hrec ms t value F hvalue).bind fun v t _ => ih _ hrest

/-- A call runs in a frame of its own. -/
theorem callClosure (closure : Closure) (arguments : List Value) :
    Adds library E ms s (Eval.callClosure rec closure arguments) := by
  unfold Eval.callClosure
  refine require (newFrame_bind ⟨some closure.frame, []⟩ fun L t hL => ?_)
  refine (forM fun p t => ?_).bind fun _ t _ => catchReturn (block hrec closure.literal.body (.elsewhere hL))
  obtain ⟨x, v⟩ := p
  exact bindElsewhere hL x v

/-- A call adds names to frames of its own. -/
theorem apply (f : Value) (arguments : List Value) : Adds library E ms s (Eval.apply rec f arguments) := by
  refine datum ?_
  split
  · exact callClosure hrec _ arguments
  · exact computes (.call _ arguments)
  · exact fail _

/-! ## Loops -/

theorem round (x : String) (body : List Stmt) {L : FrameId} (hL : L ≠ E) (v : Value) :
    Adds library E ms s (Eval.round rec x body L v) :=
  (bindElsewhere hL x v).bind fun _ _ _ => block hrec body (.elsewhere hL)

theorem countRounds (x : String) (body : List Stmt) {L : FrameId} (hL : L ≠ E) (delta : Int64) (n : Nat) (k : Int64)
    (last : Value) : Adds library E ms s (Eval.countRounds rec x body L delta n k last) := by
  induction n generalizing s k last with
  | zero => exact pure _
  | succ n ih =>
    exact (computes (.alloc rfl)).bind fun v t _ => (round hrec x body hL v).bind fun last _ _ => ih _ last

theorem valueRounds (x : String) (body : List Stmt) {L : FrameId} (hL : L ≠ E) (vs : List Value) (last : Value) :
    Adds library E ms s (Eval.valueRounds rec x body L vs last) := by
  induction vs generalizing s last with
  | nil => exact pure _
  | cons v vs ih => exact (round hrec x body hL v).bind fun last _ _ => ih last

theorem loopBound (bound : LoopBound) (e : Expr) (he : Listed E F ms e.declared) :
    Adds library E ms s (Eval.loopBound rec bound e F) := by
  refine (hrec ms s e F he).bind fun v t _ => datum ?_
  split
  · exact pure _
  · exact fail _

/-- All rounds of a loop run in one frame of their own. -/
theorem rangeFor (x : String) (start stop : Expr) (body : List Stmt) (hstart : Listed E F ms start.declared)
    (hstop : Listed E F ms stop.declared) : Adds library E ms s (Eval.rangeFor rec x start stop body F) := by
  refine (loopBound hrec .start start hstart).bind fun a _ _ => ?_
  refine (loopBound hrec .stop stop hstop).bind fun b _ _ => ?_
  exact loopFrame_bind fun L t hL => countRounds hrec x body hL _ _ a .null

/-- The body of a loop runs in another frame. -/
theorem collectionFor (x collection : String) (body : List Stmt) :
    Adds library E ms s (Eval.collectionFor rec x collection body F) := by
  refine read ?_
  split
  · exact fail _
  · refine datum ?_
    split
    · exact loopFrame_bind fun L t hL => valueRounds hrec x body hL _ .null
    · exact fail _

/-! ## Classes and objects -/

/-- A unit runs in the frame where its class is wanted. -/
theorem classOfUnit (className : String) (h : F = E → .unit className ∈ ms) :
    Adds library E ms s (Eval.classOfUnit library rec className F) := by
  intro hs
  have hasked : (s.request className).Unowned E := ⟨hs.hasFrame, hs.owner⟩
  unfold Eval.classOfUnit
  rw [modify_bind]
  cases hunit : library className with
  | error e => exact ⟨hasked, id, [className], rfl, fun _ => .inl⟩
  | ok source =>
    dsimp only
    refine .unit h hunit fun ms' hms' => bind (catchReturn (block hrec _ hms')) (fun _ t _ => read ?_) hasked
    split
    · exact pure _
    · exact fail _

/-- A class that is not in scope is asked for, and its unit adds what it declares. -/
theorem findClass (className : String) (h : F = E → .unit className ∈ ms) :
    Adds library E ms s (Eval.findClass library rec className F) := by
  refine read ?_
  split
  · exact pure _
  · exact classOfUnit hrec className h

/-- Arguments for fields are evaluated inside the instance; a field gets a value, no name. -/
theorem initArguments (className : String) {I L : FrameId} (hI : I ≠ E) (hL : L ≠ E)
    (arguments : List (ConstructorParam × Expr)) (harguments : ∀ p ∈ arguments, Listed E F ms p.2.declared) :
    Adds library E ms s (Eval.initArguments rec className I L arguments F) := by
  induction arguments generalizing s with
  | nil => exact pure ()
  | cons p rest ih =>
    obtain ⟨p, argument⟩ := p
    obtain ⟨hargument, hrest⟩ := List.forall_mem_cons.1 harguments
    unfold Eval.initArguments
    split
    · refine (hrec ms s argument I (.elsewhere hI)).bind fun v t _ => read ?_
      split
      · next hu => exact (update hu).bind fun _ _ _ => ih hrest
      · exact (fail _).bind fun _ _ _ => ih hrest
    · refine (hrec ms s argument F hargument).bind fun v t _ => ?_
      exact (bindElsewhere hL p.name v).bind fun _ _ _ => ih hrest

theorem construct (className : String) (init : Constructor) {I : FrameId} (hI : I ≠ E) (arguments : List Expr)
    (harguments : Listed E F ms (declaredInExprs arguments)) :
    Adds library E ms s (Eval.construct rec className init I arguments F) := by
  have hzip : ∀ p ∈ init.parameters.zip arguments, Listed E F ms p.2.declared := fun p hp hF =>
    List.Subset.trans (declared_subset_exprs (List.of_mem_zip (a := p.1) (b := p.2) hp).2) (harguments hF)
  unfold Eval.construct
  refine require (newFrame_bind ⟨some I, []⟩ fun L t hL => ?_)
  refine (initArguments hrec className hI hL _ hzip).bind fun _ t _ => ?_
  exact (catchReturn (block hrec init.body (.elsewhere hL))).bind fun _ _ _ => pure ()

theorem initInstance (className : String) {I : FrameId} (hI : I ≠ E) (arguments : List Expr)
    (harguments : Listed E F ms (declaredInExprs arguments)) :
    Adds library E ms s (Eval.initInstance rec className I arguments F) := by
  refine read ?_
  split
  · split
    · exact fail _
    · exact pure ()
  · refine datum ?_
    split
    · exact construct hrec className _ hI arguments harguments
    · exact fail _

theorem instantiate (className name : String) (T : FrameId) (arguments : List Expr)
    (harguments : Listed E F ms (declaredInExprs arguments)) :
    Adds library E ms s (Eval.instantiate rec className name T arguments F) := by
  refine instanceFrame_bind T fun I t hI => ?_
  exact (initInstance hrec className hI arguments harguments).bind fun _ t _ => inst name hI

/-- The frame of an instance is new. -/
theorem makeInstance (className : String) (arguments : List Expr) (hclass : F = E → .unit className ∈ ms)
    (harguments : Listed E F ms (declaredInExprs arguments)) :
    Adds library E ms s (Eval.makeInstance library rec className arguments F) := by
  refine (findClass hrec className hclass).bind fun v t _ => datum ?_
  split
  · exact instantiate hrec className _ _ arguments harguments
  · exact fail _

/-- The arguments of a method are evaluated in the frame of the instance. -/
theorem callMethod (object method : String) (arguments : List Expr) :
    Adds library E ms s (Eval.callMethod rec object method arguments F) := by
  intro hs
  rcases callMethod_cases s F object method rec arguments with
    ⟨e, hcall⟩ | ⟨v, className, I, f, closure, -, hv, -, -, hcall⟩
  · rw [hcall]
    exact .refl hs
  · have hI : I ≠ E := hs.owner hv
    rw [hcall]
    exact (exprs hrec arguments (.elsewhere hI)).bind (fun vs t _ => callClosure hrec closure vs) hs

/-- One expression, when those inside it add only what is declared. -/
theorem node (e : Expr) (he : Listed E F ms e.declared) : Adds library E ms s (Eval.node library rec e F) := by
  unfold Expr.declared at he
  cases e with
  | null | boolean => exact pure _
  | integer | real | text | function => exact alloc nofun
  | name x => exact computes (.readName x F)
  | thisName x => exact readThis x F
  | unary op operand => exact (hrec ms s operand F he).bind fun v t _ => datum (computes (.operator (gives_unary op _)))
  | binary op left right =>
    obtain ⟨hleft, hright⟩ := he.append
    cases op with
    | assign => exact assign hrec left hright
    | _ =>
      refine (hrec ms s left F hleft).bind fun l t _ => (hrec ms t right F hright).bind fun r u _ => read ?_
      exact computes (.operator (gives_binary u _ l r))
  | conditional branches otherwise => exact conditional hrec branches otherwise he.append.1 he.append.2
  | call function arguments =>
    refine (hrec ms s function F he.append.1).bind fun f t _ => ?_
    exact (exprs hrec arguments he.append.2).bind fun vs _ _ => apply hrec f vs
  | array elements => exact (exprs hrec elements he).bind fun vs _ _ => alloc nofun
  | index container index =>
    refine (hrec ms s container F he.append.1).bind fun c t _ => ?_
    exact (hrec ms t index F he.append.2).bind fun i _ _ => read (computes (.ofExcept _))
  | hash pairs => exact hashPairs hrec pairs [] he
  | rangeFor x start stop body => exact rangeFor hrec x start stop body he.append.1 he.append.2
  | collectionFor x collection body => exact collectionFor hrec x collection body
  | new className arguments => exact makeInstance hrec className arguments he.cons.1 he.cons.2
  | methodCall object method arguments => exact callMethod hrec object method arguments
  | increment x => exact computes (.step x true F)
  | decrement x => exact computes (.step x false F)

end Adds

/-- Evaluations of any depth add only what is declared. -/
theorem addsRec_expr (library : Library) (E : FrameId) (n : Nat) : AddsRec library E (expr library n) := by
  induction n with
  | zero => exact fun ms s e F _ => .throw .tooDeep
  | succ n ih => exact fun ms s e F he => .node ih e he

/-- What is gained is gained however the evaluation ends. -/
theorem Adds.outcome {x : Eval Value} (h : Adds library E ms s x) (hs : s.Unowned E) :
    s.Gains library E ms (Outcome.of x s).2 := by
  have hends := h hs
  unfold Outcome.of
  generalize x s = r at hends
  cases r with
  | ok v t => exact hends
  | error stop t => cases stop <;> exact hends

/-- **Where a name comes from.** A frame that is not the one of a class or an instance keeps its names through all that
is evaluated in it, whatever the outcome, and gets no others than those that are declared directly in the text and in
the units that the text loads. All that is evaluated in other frames, and all that is called, adds no names to it. -/
theorem names_declared (hs : s.Unowned E) (library : Library) (n : Nat) :
    (∀ e, s.Gains library E e.declared (Outcome.of (expr library n e E) s).2) ∧
    (∀ st, s.Gains library E st.declared (Outcome.of (stmt (expr library n) st E) s).2) ∧
    (∀ body, s.Gains library E (declaredInBlock body) (Outcome.of (block (expr library n) body E) s).2) ∧
    (∀ F, F ≠ E → ∀ body x, ((Outcome.of (block (expr library n) body F) s).2.localValue? E x).isSome =
      (s.localValue? E x).isSome) ∧
    ∀ f arguments x, ((Outcome.of (apply (expr library n) f arguments) s).2.localValue? E x).isSome =
      (s.localValue? E x).isSome := by
  have hrec := addsRec_expr library E n
  refine ⟨fun e => ?_, fun st => ?_, fun body => ?_, fun F hF body => ?_, fun f arguments => ?_⟩
  · exact (hrec _ s e E fun _ => List.Subset.refl _).outcome hs
  · exact (Adds.stmt hrec st fun _ => List.Subset.refl _).outcome hs
  · exact (Adds.block hrec body fun _ => List.Subset.refl _).outcome hs
  · exact ((Adds.block hrec body (.elsewhere hF)).outcome hs).names_eq
  · exact ((Adds.apply hrec f arguments).outcome hs).names_eq

/-- Two units; the first one loads the second. -/
def nestedUnits : Library := .ofUnits
  [("C", "class C { var hidden = 1; } var u = new D();"), ("D", "class D { } func g(hidden) { var hidden = 1; }")]

/-- A conditional, a loop, a function that is called, and an instance of a class from a unit. -/
def declaringText : Program :=
  (parseSource "if (true) { var a = 1; } for (i from 0 to 2) { var b = i; a++; } func f(p) { var c = p; a = c; }
    f(3); new C();").program

theorem declaringText_names :
    Session.start.store.Unowned Session.start.frame ∧
      let t := (Outcome.of (block (expr nestedUnits 8) declaringText Session.start.frame) Session.start.store).2
      Session.start.store.Gains nestedUnits Session.start.frame (declaredInBlock declaringText) t ∧
      (t.bindings Session.start.frame).names = ["a", "f", "C", "D", "g", "u"] ∧ t.requests = ["C", "D"] := by
  have hs : Session.start.store.Unowned Session.start.frame :=
    ⟨Nat.one_pos, fun {v _ _} hv => by cases v <;> cases hv⟩
  exact ⟨hs, (names_declared hs nestedUnits 8).2.2.1 declaringText, by decide +kernel⟩

end Eval

end Pron
