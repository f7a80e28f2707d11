import Pron.Proofs.Privacy.Alike
import Pron.Proofs.Evaluation

/-!
# Two runs of alike programs

Alike programs are run side by side. Both runs make the same objects and frames in the same order, so a reference means
the same on both sides. A world says what is known of them at some time: which objects an evaluation can get to, which
are the private method, which are constructors of the class, and on which side a frame is (`Secret.World`). In two
stores of a world the frames are the same, and the objects that an evaluation can get to differ in texts only
(`Secret.Stores`): only frames inside refer to the method, under its name.

Two actions are twins when they end alike on all such stores, with the same result (`Secret.Twin`).
-/

namespace Pron

namespace Secret

/-! ## Worlds -/

/-- What is known of an object: that evaluations can get to it, that it is the private method, or that it is the
constructor of a secretive class. -/
inductive Role
  | visible | hidden | init

/-- What is known of objects and frames at some time of the two runs. -/
structure World where
  object : Role → ObjectId → Prop
  frame : Side → FrameId → Prop

namespace World

variable (w : World)

/-- Values that evaluations can get to. -/
def Value : Value → Prop
  | .ref id => w.object .visible id
  | _ => True

/-- Values that refer to an object with a role. -/
def Refers (role : Role) (v : Pron.Value) : Prop := ∃ id, v = .ref id ∧ w.object role id

/-- Later worlds. -/
structure Le (w w' : World) : Prop where
  object {role : Role} {id : ObjectId} : w.object role id → w'.object role id
  frame {side : Side} {E : FrameId} : w.frame side E → w'.frame side E

variable {w} {w' w'' : World}

theorem Le.refl (w : World) : w.Le w := ⟨id, id⟩

/-- Worlds grow step by step. -/
theorem Le.trans (h : w.Le w') (h' : w'.Le w'') : w.Le w'' :=
  ⟨fun ho => h'.object (h.object ho), fun hE => h'.frame (h.frame hE)⟩

/-- What evaluations can get to they can get to later. -/
theorem Le.value (h : w.Le w') {v : Pron.Value} (hv : w.Value v) : w'.Value v := by
  cases v with
  | null | boolean => trivial
  | ref id => exact h.object hv

theorem Le.values (h : w.Le w') {vs : List Pron.Value} (hvs : ∀ v ∈ vs, w.Value v) : ∀ v ∈ vs, w'.Value v :=
  fun v hv => h.value (hvs v hv)

/-- An object keeps its role. -/
theorem Le.refers (h : w.Le w') {role : Role} {v : Pron.Value} (hv : w.Refers role v) : w'.Refers role v := by
  obtain ⟨id, rfl, hid⟩ := hv
  exact ⟨id, rfl, h.object hid⟩

/-- A value that is visible can be got to. -/
theorem Refers.value {v : Pron.Value} (h : w.Refers .visible v) : w.Value v := by
  obtain ⟨id, rfl, hid⟩ := h
  exact hid

end World

variable (S : Secret) (w : World)

/-- What a frame binds to a name: inside, the private method is bound to its name only, and the name for constructors to
a constructor of the class. -/
def Binding : Side → String × Value → Prop
  | .inside, b => w.Value b.2 ∧ (b.1 = Eval.initName → w.Refers .init b.2) ∨ b.1 = S.method ∧ w.Refers .hidden b.2
  | .outside, b => w.Value b.2

/-- Objects of the two runs that evaluations can get to. -/
inductive AlikeObject : Object → Object → Prop
  | data {o : Object} : o.frame? = none → (∀ v ∈ o.parts, w.Value v) → AlikeObject o o
  | function (isPublic : Bool) {f f' : FunctionLit} {side : Side} {E : FrameId} : S.AlikeFunction f f' →
      w.frame side E → S.Permits side f.mentions →
      AlikeObject (.function ⟨f, E, isPublic⟩) (.function ⟨f', E, isPublic⟩)
  | inst (className : String) {side : Side} {I : FrameId} : w.frame side I →
      AlikeObject (.inst className I) (.inst className I)
  | init (E : FrameId) {c c' : Constructor} : S.AlikeInit c c' → AlikeObject (.init c E) (.init c' E)

/-- Objects of the two runs that have a role. -/
inductive Fits : Role → Object → Object → Prop
  | visible {o o' : Object} : S.AlikeObject w o o' → Fits .visible o o'
  | hidden (f f' : FunctionLit) (E : FrameId) : Fits .hidden (.function ⟨f, E, false⟩) (.function ⟨f', E, false⟩)
  | init (E E' : FrameId) {c : Constructor} (c' : Constructor) : S.Permits .inside c.mentions →
      (∀ i p, c.parameters[i]? = some p → p.isField → S.arguments i) → Fits .init (.init c E) (.init c' E')

/-- What values that evaluations can get to are. -/
inductive AlikeDatum : Datum → Datum → Prop
  | null : AlikeDatum .null .null
  | boolean (b : Bool) : AlikeDatum (.boolean b) (.boolean b)
  | object {o o' : Object} : S.AlikeObject w o o' → AlikeDatum (.object o) (.object o')

/-- The stores of two runs. -/
structure Stores (s t : Store) : Prop where
  size : t.objects.size = s.objects.size
  frames : t.frames = s.frames
  requests : t.requests = s.requests
  printed : S.Shown s.printed t.printed
  object {role : Role} {id : ObjectId} : w.object role id →
    ∃ o o', s.datum (.ref id) = .object o ∧ t.datum (.ref id) = .object o' ∧ S.Fits w role o o'
  has {side : Side} {E : FrameId} : w.frame side E → s.HasFrame E
  apart {E : FrameId} : w.frame .inside E → ¬w.frame .outside E
  parent {side : Side} {E P : FrameId} : w.frame side E → s.parent? E = some P → w.frame side P
  binding {side : Side} {E : FrameId} {b : String × Value} : w.frame side E → b ∈ s.bindings E → S.Binding w side b

variable {S w} {w' : World} {s t : Store} {side : Side} {E : FrameId} {x : String} {v : Value} {o o' : Object}

section Mono

variable (h : w.Le w')

include h

/-- A binding that is in order stays so. -/
theorem Binding.mono {b : String × Value} (hb : S.Binding w side b) : S.Binding w' side b := by
  cases side with
  | inside =>
    rcases hb with ⟨hv, hinit⟩ | ⟨hx, hv⟩
    · exact .inl ⟨h.value hv, fun hx => h.refers (hinit hx)⟩
    · exact .inr ⟨hx, h.refers hv⟩
  | outside => exact h.value hb

/-- Objects that are alike stay so. -/
theorem AlikeObject.mono (ho : S.AlikeObject w o o') : S.AlikeObject w' o o' := by
  cases ho with
  | data hframe hparts => exact .data hframe (h.values hparts)
  | function isPublic hf hE hmentions => exact .function isPublic hf (h.frame hE) hmentions
  | inst className hI => exact .inst className (h.frame hI)
  | init E hc => exact .init E hc

theorem Fits.mono {role : Role} (ho : S.Fits w role o o') : S.Fits w' role o o' := by
  cases ho with
  | visible ho => exact .visible (ho.mono h)
  | hidden f f' E => exact .hidden f f' E
  | init E E' c' hmentions hfields => exact .init E E' c' hmentions hfields

end Mono

/-- Numbers, texts and built-in functions. -/
theorem AlikeObject.scalar (hframe : o.frame? = none) (hparts : o.parts = []) : S.AlikeObject w o o :=
  .data hframe (hparts ▸ nofun)

/-- A hash is alike to itself if evaluations can get to what it holds. -/
theorem AlikeObject.hash {entries : List HashEntry} (h : ∀ e ∈ entries, w.Value e.key ∧ w.Value e.value) :
    S.AlikeObject w (.hash entries) (.hash entries) := by
  refine .data rfl fun v hv => ?_
  obtain ⟨e, he, rfl | rfl⟩ := Object.mem_parts_hash hv
  · exact (h e he).1
  · exact (h e he).2

/-! ## Bindings -/

/-- A name that is not the one of the method is bound to what evaluations can get to. -/
theorem Binding.value (h : S.Binding w side (x, v)) (hx : side = .inside → S.Allows (.name x)) : w.Value v := by
  cases side with
  | inside =>
    rcases h with ⟨hv, _⟩ | ⟨rfl, _⟩
    · exact hv
    · exact ((hx rfl).1 rfl).elim
  | outside => exact h

/-- A value that evaluations can get to may be bound to any name but, inside, that of constructors. -/
theorem Binding.of_value (hv : w.Value v) (hx : side = .inside → x ≠ Eval.initName) : S.Binding w side (x, v) := by
  cases side with
  | inside => exact .inl ⟨hv, fun h => (hx rfl h).elim⟩
  | outside => exact hv

/-! ## What is read -/

namespace Stores

variable (hs : S.Stores w s t)

include hs

/-- What evaluations can get to is alike in both runs. -/
theorem datum (hv : w.Value v) : S.AlikeDatum w (s.datum v) (t.datum v) := by
  cases v with
  | null => exact .null
  | boolean b => exact .boolean b
  | ref id =>
    obtain ⟨o, o', ho, ho', hfits⟩ := hs.object hv
    rw [ho, ho']
    cases hfits with
    | visible h => exact .object h

/-- The method is a function that is not public. -/
theorem hidden (hv : w.Refers .hidden v) : ∃ f f' F, s.datum v = .object (.function ⟨f, F, false⟩) ∧
    t.datum v = .object (.function ⟨f', F, false⟩) := by
  obtain ⟨id, rfl, hid⟩ := hv
  obtain ⟨o, o', ho, ho', hfits⟩ := hs.object hid
  cases hfits with
  | hidden f f' F => exact ⟨f, f', F, ho, ho'⟩

/-- A constructor of the class is one in both runs, though their frames may differ. -/
theorem init (hv : w.Refers .init v) : ∃ c c' E E',
    s.datum v = .object (.init c E) ∧ t.datum v = .object (.init c' E') ∧ S.Permits .inside c.mentions ∧
    ∀ i p, c.parameters[i]? = some p → p.isField → S.arguments i := by
  obtain ⟨id, rfl, hid⟩ := hv
  obtain ⟨o, o', ho, ho', hfits⟩ := hs.object hid
  cases hfits with
  | init E E' c' hmentions hfields => exact ⟨_, c', E, E', ho, ho', hmentions, hfields⟩

/-- No frame is on both sides. -/
theorem side_eq {side' : Side} (hE : w.frame side E) (hE' : w.frame side' E) : side' = side := by
  cases side with
  | inside => cases side' with
    | inside => rfl
    | outside => exact (hs.apart hE hE').elim
  | outside => cases side' with
    | inside => exact (hs.apart hE' hE).elim
    | outside => rfl

/-- The frames around a frame are on its side. -/
theorem chain (hE : w.frame side E) : ∀ F ∈ s.chain E, w.frame side F := by
  unfold Store.chain
  generalize E.index = n
  induction n generalizing E with
  | zero => simpa [Store.chainUpTo] using hE
  | succ n ih =>
    unfold Store.chainUpTo
    split
    · rename_i P hP
      exact List.forall_mem_cons.2 ⟨hE, ih (hs.parent hE hP)⟩
    · simpa using hE

/-- The receiver of a frame is on its side. -/
theorem root (hE : w.frame side E) : w.frame side (s.root E) := by
  have hlast : s.root E = E ∨ s.root E ∈ s.chain E := by
    unfold Store.root
    rw [List.getLastD_eq_getLast?]
    cases h : (s.chain E).getLast? with
    | none => exact .inl rfl
    | some F => exact .inr (List.mem_of_getLast? h)
  rcases hlast with h | h
  · rwa [h]
  · exact hs.chain hE _ h

/-- What a frame binds is in order for its side. -/
theorem localValue? {F : FrameId} (hF : w.frame side F) (h : s.localValue? F x = some v) : S.Binding w side (x, v) := by
  rw [Store.localValue?_eq] at h
  obtain ⟨front, back, hbindings, _⟩ := List.lookup_eq_some_iff.1 h
  exact hs.binding hF (hbindings ▸ List.mem_append_right _ List.mem_cons_self)

theorem binder? {F : FrameId} (hE : w.frame side E) (h : s.binder? E x = some F) : w.frame side F :=
  hs.chain hE F (List.mem_of_find?_eq_some h)

/-- What is found from a frame is in order for its side. -/
theorem get? (hE : w.frame side E) (h : s.get? E x = some v) : S.Binding w side (x, v) := by
  obtain ⟨F, hF, hv⟩ := Option.bind_eq_some_iff.1 h
  exact hs.localValue? (hs.binder? hE hF) hv

theorem rootValue? (hE : w.frame side E) (h : s.rootValue? E x = some v) : S.Binding w side (x, v) :=
  hs.localValue? (hs.root hE) h

/-- Displayed values differ in the texts of functions and constructors only. -/
theorem displayUpTo (n : Nat) (hv : w.Value v) : S.Shown (s.displayUpTo n v) (t.displayUpTo n v) := by
  induction n generalizing v with
  | zero => exact .same _
  | succ n ih =>
    have hd := hs.datum hv
    unfold Store.displayUpTo
    generalize s.datum v = d at hd
    generalize t.datum v = d' at hd
    cases hd with
    | null => exact .same _
    | boolean b => exact .same _
    | @object o o' ho =>
      cases ho with
      | data hframe hparts =>
        cases o with
        | array elements => exact .append (.append (.same _) (.commas fun u hu => ih (hparts u hu))) (.same _)
        | hash entries =>
          refine .append (.append (.same _) (.commas fun e he => ?_)) (.same _)
          have hkey := ih (hparts e.key (Object.key_mem_parts he))
          exact .append (.append hkey (.same _)) (ih (hparts e.value (Object.value_mem_parts he)))
        | function | inst | init => cases hframe
        | _ => exact .same _
      | function isPublic hf => exact .function hf
      | inst => exact .same _
      | init E hc => exact .init hc

/-- What evaluations can get to is shown alike. -/
theorem display (hv : w.Value v) : S.Shown (s.display v) (t.display v) := hs.displayUpTo _ hv

/-- What evaluations can get to is described alike in errors. -/
theorem describe (hv : w.Value v) : S.Shown (s.describe v) (t.describe v) := by
  have hd := hs.datum hv
  have hshown := hs.display hv
  unfold Store.describe
  generalize s.datum v = d at hd
  generalize t.datum v = d' at hd
  cases hd with
  | null | boolean => exact .append (.append (.same _) hshown) (.same _)
  | @object o o' ho =>
    cases ho with
    | data =>
      cases o with
      | text => exact .same _
      | _ => exact .append (.append (.same _) hshown) (.same _)
    | _ => exact .append (.append (.same _) hshown) (.same _)

/-! ## What is written -/

/-- A new object, with the roles that it fits. -/
theorem alloc {roles : Role → Prop} (h : ∀ role, roles role → S.Fits w role o o') :
    (t.alloc o').1 = (s.alloc o).1 ∧ ∃ w', w.Le w' ∧ S.Stores w' (s.alloc o).2 (t.alloc o').2 ∧
      ∀ role, roles role → w'.Refers role (s.alloc o).1 := by
  have href : (t.alloc o').1 = (s.alloc o).1 := congrArg (fun n => Value.ref ⟨n⟩) hs.size
  refine ⟨href, ⟨fun role id => w.object role id ∨ roles role ∧ .ref id = (s.alloc o).1, w.frame⟩, ⟨.inl, id⟩, ?_, ?_⟩
  · have hle : w.Le ⟨fun role id => w.object role id ∨ roles role ∧ .ref id = (s.alloc o).1, w.frame⟩ := ⟨.inl, id⟩
    refine ⟨?_, hs.frames, hs.requests, hs.printed, fun hid => ?_, hs.has, hs.apart, hs.parent,
      fun hE hb => (hs.binding hE hb).mono hle⟩
    · show (t.objects.push o').size = (s.objects.push o).size
      rw [Array.size_push, Array.size_push, hs.size]
    · rcases hid with hid | ⟨hrole, hnew⟩
      · obtain ⟨p, p', hp, hp', hfits⟩ := hs.object hid
        refine ⟨p, p', ?_, ?_, hfits.mono hle⟩
        · rw [Store.datum_alloc (Store.hasValue_of_datum hp), hp]
        · rw [Store.datum_alloc (Store.hasValue_of_datum hp'), hp']
      · refine ⟨o, o', ?_, ?_, (h _ hrole).mono hle⟩
        · rw [hnew, Store.datum_alloc_self]
        · rw [hnew, ← href, Store.datum_alloc_self]
  · intro role hrole
    exact ⟨⟨s.objects.size⟩, rfl, .inr ⟨hrole, rfl⟩⟩

/-- A new frame is the same in both runs, and on the side of the one around it. -/
theorem newFrame {f : Frame} (hparent : ∀ P, f.parent = some P → w.frame side P)
    (hbindings : ∀ b ∈ f.bindings, S.Binding w side b) :
    (t.newFrame f).1 = (s.newFrame f).1 ∧ ∃ w', w.Le w' ∧ S.Stores w' (s.newFrame f).2 (t.newFrame f).2 ∧
      w'.frame side (s.newFrame f).1 := by
  have hle : w.Le ⟨w.object, fun side' E => w.frame side' E ∨ side' = side ∧ E = (s.newFrame f).1⟩ := ⟨id, .inl⟩
  have hfresh {side' : Side} (h : w.frame side' (s.newFrame f).1) : False := Nat.lt_irrefl _ (hs.has h)
  refine ⟨?_, _, hle, ?_, .inr ⟨rfl, rfl⟩⟩
  · show FrameId.mk t.frames.size = FrameId.mk s.frames.size
    rw [hs.frames]
  · refine ⟨hs.size, ?_, hs.requests, hs.printed, fun hid => ?_, fun hE => ?_, fun hE hE' => ?_, fun hE hP => ?_,
      fun hE hb => ?_⟩
    · show t.frames.push f = s.frames.push f
      rw [hs.frames]
    · obtain ⟨p, p', hp, hp', hfits⟩ := hs.object hid
      exact ⟨p, p', hp, hp', hfits.mono hle⟩
    · rcases hE with hE | ⟨_, rfl⟩
      · exact Store.hasFrame_newFrame (hs.has hE)
      · exact Store.hasFrame_newFrame_self
    · rcases hE with hE | ⟨hside, rfl⟩
      · rcases hE' with hE' | ⟨_, rfl⟩
        · exact hs.apart hE hE'
        · exact hfresh hE
      · rcases hE' with hE' | ⟨hside', _⟩
        · exact hfresh hE'
        · rw [← hside] at hside'
          cases hside'
    · rcases hE with hE | ⟨rfl, rfl⟩
      · rw [Store.parent?_newFrame (hs.has hE)] at hP
        exact .inl (hs.parent hE hP)
      · rw [Store.parent?_newFrame_self] at hP
        exact .inl (hparent _ hP)
    · rcases hE with hE | ⟨rfl, rfl⟩
      · rw [Store.bindings_newFrame (hs.has hE)] at hb
        exact (hs.binding hE hb).mono hle
      · rw [Store.bindings_newFrame_self] at hb
        exact (hbindings _ hb).mono hle

/-- What is in order for the side of a frame can be bound there in both runs. -/
theorem set (hE : w.frame side E) (h : S.Binding w side (x, v)) : S.Stores w (s.set E x v) (t.set E x v) where
  size := hs.size
  frames := by
    unfold Store.set
    rw [hs.frames]
  requests := hs.requests
  printed := hs.printed
  object := hs.object
  has hF := Store.hasFrame_set.2 (hs.has hF)
  apart := hs.apart
  parent hF hP := hs.parent hF (Store.parent?_set ▸ hP)
  binding {side' F b} hF hb := by
    rcases Store.mem_bindings_set hb with ⟨rfl, rfl⟩ | hb
    · rwa [hs.side_eq hE hF]
    · exact hs.binding hF hb

/-- An object that evaluations can get to is changed alike; it is no function and no constructor. -/
theorem write {id : ObjectId} {p : Object} (hp : s.datum (.ref id) = .object p) (hdata : p.frame? = none)
    (ho : S.AlikeObject w o o') : S.Stores w (s.write id o) (t.write id o') where
  size := by
    rw [Store.size_write, Store.size_write, hs.size]
  frames := hs.frames
  requests := hs.requests
  printed := hs.printed
  object {role i} hi := by
    obtain ⟨q, q', hq, hq', hfits⟩ := hs.object hi
    by_cases heq : i = id
    · subst heq
      rw [hp] at hq
      cases hq
      refine ⟨o, o', Store.datum_write_self (Store.hasValue_of_datum hp),
        Store.datum_write_self (Store.hasValue_of_datum hq'), ?_⟩
      cases hfits with
      | visible => exact .visible ho
      | hidden => cases hdata
      | init => cases hdata
    · have hne : Value.ref i ≠ .ref id := fun h => heq (Value.ref.inj h)
      exact ⟨q, q', (Store.datum_write_of_ne hne).trans hq, (Store.datum_write_of_ne hne).trans hq', hfits⟩
  has := hs.has
  apart := hs.apart
  parent := hs.parent
  binding := hs.binding

/-- Texts that are shown alike can be printed. -/
theorem print {a b : String} (h : S.Shown a b) : S.Stores w (s.print a) (t.print b) where
  size := hs.size
  frames := hs.frames
  requests := hs.requests
  printed := hs.printed.append h
  object := hs.object
  has := hs.has
  apart := hs.apart
  parent := hs.parent
  binding := hs.binding

/-- Both runs can ask for a unit. -/
theorem request (className : String) : S.Stores w (s.request className) (t.request className) where
  size := hs.size
  frames := hs.frames
  requests := congrArg (· ++ [className]) hs.requests
  printed := hs.printed
  object := hs.object
  has := hs.has
  apart := hs.apart
  parent := hs.parent
  binding := hs.binding

end Stores

end Secret

end Pron
