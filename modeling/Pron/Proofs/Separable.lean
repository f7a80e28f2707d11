import Pron.Proofs.Locality
import Pron.Proofs.WellFormed

/-!
# Classes whose instances can be separated

A class is separable when its frame binds functions only directly, made in the frame itself, and otherwise data without
functions and instances (`Store.Separable`). A new instance of such a class refers to nothing that was there before but
constants, and making it changes nothing (`Store.Separable.instanceFrame`, `Store.Separable.instantiate`).

Functions inside of arrays and hashes are not replaced by copies that work in the frame of the instance, and neither are
functions that were made by calls: they go on working in the frame of the class, or in one inside of it.
-/

namespace Pron

/-! ## Separable classes -/

namespace Object

/-- Objects by which no evaluation gets to a frame. -/
def IsData : Object → Prop
  | function _ => False
  | inst _ _ => False
  | _ => True

/-- Objects that stay what they are and by which no evaluation gets anywhere. -/
def IsConstant : Object → Prop
  | real _ => True
  | text _ => True
  | builtin _ => True
  | init _ _ => True
  | _ => False

theorem IsConstant.fixed {o : Object} (h : o.IsConstant) : o.Fixed := by
  cases o with
  | integer | hash => exact h
  | _ => trivial

end Object

namespace Store

/-- Data without functions and instances at any depth. -/
inductive Plain (s : Store) : Value → Prop
  | null : Plain s .null
  | boolean (b : Bool) : Plain s (.boolean b)
  | object {id : ObjectId} {o : Object} : s.datum (.ref id) = .object o → o.IsData → (∀ u ∈ o.parts, Plain s u) →
      Plain s (.ref id)

/-- Functions made in a frame. -/
def MadeIn (s : Store) (T : FrameId) (v : Value) : Prop :=
  ∃ literal isPublic, s.datum v = .object (.function ⟨literal, T, isPublic⟩)

/-- The frame of a class binds data, and functions that were made in the frame itself. -/
def Separable (s : Store) (T : FrameId) : Prop := ∀ b ∈ s.bindings T, s.Plain b.2 ∨ s.MadeIn T b.2

/-- A frame in which an object or a class is bound is not the frame of a separable class. -/
theorem Separable.ne {s : Store} {T G I : FrameId} {x name : String} {v : Value} (hT : s.Separable T)
    (hroot : s.parent? G = none) (hx : s.get? G x = some v) (hv : s.datum v = .object (.inst name I)) : T ≠ G := by
  rintro rfl
  rcases hT _ (mem_bindings_of_get? hroot hx) with hplain | ⟨literal, isPublic, hd⟩
  · cases hplain with
    | null | boolean => cases hv
    | object ho hdata =>
      rw [hv] at ho
      cases ho
      exact hdata
  · rw [hv] at hd
    cases hd

/-- The places of objects that stay what they are and by which no evaluation gets anywhere. -/
def Constant (s : Store) : Place → Prop
  | .frame _ => False
  | .object id => ∃ o, s.datum (.ref id) = .object o ∧ o.IsConstant

theorem Constant.has {s : Store} {p : Place} (h : s.Constant p) : s.Has p := by
  cases p with
  | frame E => exact h.elim
  | object id =>
    obtain ⟨o, ho, _⟩ := h
    exact hasValue_of_datum ho

/-- Constant objects stay so, in the set that may be changed as well as outside of it. -/
theorem Constant.later {A : Place → Prop} {s t : Store} {p : Place} (h : s.Constant p) (hs : Spared A s t) :
    t.Constant p := by
  cases p with
  | frame E => exact h.elim
  | object id =>
    obtain ⟨o, ho, hconstant⟩ := h
    exact ⟨o, hs.fixed ho hconstant.fixed, hconstant⟩

end Store

/-! ## Stores in which nothing old has changed -/

namespace Spared

variable {A : Place → Prop} {s t : Store}

/-- Constants do not change in any case. -/
theorem except_constants (h : Spared A s t) : Spared (fun p => A p ∧ ¬s.Constant p) s t where
  has := h.has
  frame hE hA := h.frame hE fun hp => hA ⟨hp, id⟩
  object {id} hid hA := by
    by_cases hconstant : s.Constant (.object id)
    · obtain ⟨o, ho, hconstant⟩ := hconstant
      rw [Store.objects_of_datum ho, Store.objects_of_datum (h.fixed ho hconstant.fixed)]
    · exact h.object hid fun hp => hA ⟨hp, hconstant⟩
  parent := h.parent
  fixed := h.fixed

end Spared

/-- Nothing that was there has changed. -/
abbrev Kept (s t : Store) : Prop := Spared (fun _ => False) s t

namespace Kept

variable {s t u : Store} {v : Value} {T : FrameId}

theorem datum (h : Kept s t) (hv : s.HasValue v) : t.datum v = s.datum v := by
  cases v with
  | null | boolean => rfl
  | ref id => exact Spared.datum h hv fun h => h

/-- Nothing changes where only what is new and what is constant may be changed. -/
theorem trans_region (h : Kept s t) (hu : Spared (Changeable s.Constant s) t u) : Kept s u := by
  have hconstants : Spared s.Constant s u :=
    (h.mono fun _ _ => False.elim).trans hu fun _ hp hchange => hchange.of_has hp
  exact hconstants.except_constants.mono fun _ _ hp => hp.2 hp.1

end Kept

/-! ## Copies of what a class binds -/

section Copies

variable {s w : Store} {v : Value} {T : FrameId}

namespace Store

/-- An evaluation that starts with nothing but constants. -/
def fresh (s : Store) : Invariant := .region s.Constant False s

/-- A copy of data is new, but for constants. -/
theorem Plain.copyUpTo (hs : s.WellFormed) (hv : s.Plain v) {n : Nat} (hn : depthBound v ≤ n) (hw : Kept s w) :
    Simulation.Carries (S := s.fresh.toSimulation []) w Simulation.values (copyUpTo n v) (copyUpTo n v) := by
  induction n generalizing v w with
  | zero =>
    have hpos := depthBound_pos v
    omega
  | succ n ih =>
    refine Simulation.Carries.read fun w₁ w₂ ⟨h₁, h₂, hholds⟩ => ?_
    rw [h₁, h₂]
    have hstores : (s.fresh.toSimulation []).stores w w w := ⟨rfl, rfl, hholds⟩
    cases hv with
    | null => exact Simulation.Carries.pure ⟨rfl, trivial⟩ hstores
    | boolean b => exact Simulation.Carries.pure ⟨rfl, trivial⟩ hstores
    | @object id o ho hdata hparts =>
      have hd : w.datum (.ref id) = .object o := (hw.datum (hasValue_of_datum ho)).trans ho
      have hdepth {u : Value} (hu : u ∈ o.parts) : depthBound u ≤ n := by
        have hlt := hs.depthBound_lt ⟨o, ho, hu⟩
        omega
      rw [hd]
      cases o with
      | integer k => exact Simulation.Carries.allocM (.integer k) hstores
      | array elements =>
        -- the elements are copied one after the other, in stores that grow
        have hcopies := Simulation.Carries.mapM (S := s.fresh.toSimulation []) (w := w)
          (r := fun w u v => u = v ∧ u ∈ elements ∧ Kept s w) (Q := Simulation.values)
          (List.forall₂_same.2 fun u hu => ⟨rfl, hu, hw⟩) (fun h hu => ⟨hu.1, hu.2.1, hu.2.2.trans_region h⟩)
          (fun h => (Simulation.quiet_mono h).value) (f := Store.copyUpTo n) (g := Store.copyUpTo n) ?_
        · exact hcopies.bind (fun w' us vs _ h => Simulation.Carries.allocM (.array h)) hstores
        · rintro w' u _ _ ⟨rfl, hu, hw'⟩
          exact ih (hparts u hu) (hdepth hu) hw'
      | hash entries =>
        have hcopies := Simulation.Carries.mapM (S := s.fresh.toSimulation []) (w := w)
          (r := fun w d e => d = e ∧ d ∈ entries ∧ Kept s w) (Q := fun w => (s.fresh.guard w).diagonal.Entry)
          (List.forall₂_same.2 fun e he => ⟨rfl, he, hw⟩) (fun h he => ⟨he.1, he.2.1, he.2.2.trans_region h⟩)
          (fun h => Simulation.entry_mono h)
          (f := fun e => do return { e with key := ← Store.copyUpTo n e.key, value := ← Store.copyUpTo n e.value })
          (g := fun e => do return { e with key := ← Store.copyUpTo n e.key, value := ← Store.copyUpTo n e.value }) ?_
        · exact hcopies.bind (fun w' ds es _ h => Simulation.Carries.allocM (.hash ⟨h, False.elim⟩)) hstores
        · rintro w' e _ _ ⟨rfl, he, hw'⟩
          have hkey := Object.key_mem_parts he
          have hvalue := Object.value_mem_parts he
          refine (ih (hparts _ hkey) (hdepth hkey) hw').bind fun w₁ k l h₁ hkl => ?_
          refine (ih (hparts _ hvalue) (hdepth hvalue) (hw'.trans_region h₁)).bind fun w₂ u v h₂ huv => ?_
          have hM := Simulation.quiet_mono h₂
          exact Simulation.Carries.pure ⟨rfl, ⟨(hM.value hkl).1, trivial⟩, hM.value hkl, huv⟩
      | real | text | builtin | init =>
        exact Simulation.Carries.pure ⟨rfl, .inl ⟨_, ho, trivial⟩⟩ hstores
      | function | inst => exact hdata.elim

theorem fresh_holds (s : Store) : s.fresh.Holds s := by
  refine Invariant.region_holds ⟨?_, ?_, ?_⟩
  · rintro id o ⟨p, hp, hconstant⟩ ho
    rw [ho] at hp
    cases hp
    cases o with
    | real | text | builtin => trivial
    | init => exact False.elim
    | _ => exact hconstant.elim
  · exact fun hE _ => hE.elim
  · exact fun hE _ => hE.elim

/-- Functions are not copied but shared. -/
theorem copyValue_function {closure : Closure} (h : s.datum v = .object (.function closure)) :
    copyValue v s = (v, s) := by
  cases v with
  | null | boolean => cases h
  | ref id =>
    show copyUpTo (id.index + 1 + 1) (.ref id) s = _
    unfold Store.copyUpTo
    rw [read_bind, h]
    rfl

/-- What the frame of an instance binds until the functions of the class are replaced. -/
def Ready (s : Store) (T : FrameId) (w : Store) (v : Value) : Prop := (s.fresh.guard w).value v ∨ s.MadeIn T v

theorem Ready.mono {w' : Store} (hv : s.Ready T w v) (h : Spared (Changeable s.Constant s) w w') : s.Ready T w' v := by
  have hle : (s.fresh.guard w).Le (s.fresh.guard w') := Guard.region_mono fun _ => Grown.mono fun _ => h.has
  exact hv.imp_left hle.value

/-- The copies of all bindings are ready for the new frame. -/
theorem Separable.copyBindings (hs : s.WellFormed) (hT : s.Separable T) :
    ∃ (bs : Bindings) (w : Store),
      ((s.bindings T).mapM fun b => do return (b.1, ← copyValue b.2) : StoreM Bindings) s = (bs, w) ∧
      s.fresh.Holds w ∧ Kept s w ∧ (∀ b ∈ bs, s.Ready T w b.2) ∧ bs.names = (s.bindings T).names ∧
      w.frames = s.frames := by
  have hmono {w w' : Store} {b c : String × Value} (h : Spared (Changeable s.Constant s) w w')
      (hb : b = c ∧ s.Ready T w b.2) : b = c ∧ s.Ready T w' b.2 := ⟨hb.1, hb.2.mono h⟩
  have hcopies := Simulation.Carries.mapM (S := s.fresh.toSimulation []) (w := s)
    (r := fun w b c => b = c ∧ b ∈ s.bindings T ∧ Kept s w) (Q := fun w b c => b = c ∧ s.Ready T w b.2)
    (List.forall₂_same.2 fun b hb => ⟨rfl, hb, .refl _ s⟩) (fun h hb => ⟨hb.1, hb.2.1, hb.2.2.trans_region h⟩)
    (fun h hb => hmono h hb)
    (f := fun b => do return (b.1, ← copyValue b.2)) (g := fun b => do return (b.1, ← copyValue b.2)) ?_
  · obtain ⟨w, hw, ⟨rfl, _, hholds⟩, hbs⟩ := hcopies ⟨rfl, rfl, s.fresh_holds⟩
    refine ⟨_, _, rfl, hholds, Kept.trans_region (.refl _ s) hw, (Guard.forall₂_diagonal.1 hbs).2, ?_, ?_⟩
    · exact names_copyBindings (s.bindings T) s
    · exact frames_copyBindings (s.bindings T) s
  · rintro w b _ _ ⟨rfl, hb, hw⟩
    have hcopy : Simulation.Carries (S := s.fresh.toSimulation []) w (fun w u v => u = v ∧ s.Ready T w u)
        (copyValue b.2) (copyValue b.2) := by
      rcases hT b hb with hplain | hfunction
      · intro w₁ w₂ hstores
        obtain ⟨w', hw', hstores', huv, hu⟩ := hplain.copyUpTo hs (Nat.le_refl _) hw hstores
        exact ⟨w', hw', hstores', huv, .inl hu⟩
      · -- the function itself is bound until it is replaced
        rintro w₁ w₂ ⟨h₁, h₂, hholds⟩
        obtain ⟨literal, isPublic, hd⟩ := hfunction
        rw [h₁, h₂, copyValue_function ((hw.datum (hasValue_of_datum hd)).trans hd)]
        exact ⟨w, .refl _ w, ⟨rfl, rfl, hholds⟩, rfl, .inr ⟨literal, isPublic, hd⟩⟩
    exact hcopy.bind fun w' u v _ huv => Simulation.Carries.pure ⟨congrArg (Prod.mk b.1) huv.1, huv.2⟩

end Store

end Copies

/-! ## Frames of new instances -/

/-- A frame that is new, the only new one, and refers to nothing old but constants, were it not for some names. -/
structure Pending (s : Store) (I : FrameId) (xs : List String) (t : Store) : Prop where
  kept : Kept s t
  new : ¬s.HasFrame I
  has : t.HasFrame I
  only {E : FrameId} : t.HasFrame E → s.HasFrame E ∨ E = I
  root : t.parent? I = none
  object {id : ObjectId} {o : Object} : (s.fresh.guard t).value (.ref id) → t.datum (.ref id) = .object o →
    (s.fresh.guard t).Object o
  binding {b : String × Value} : b ∈ t.bindings I → (s.fresh.guard t).value b.2 ∨ b.1 ∈ xs
  names : (t.bindings I).names.Nodup

namespace Pending

variable {s t : Store} {I : FrameId} {x : String} {xs : List String}

/-- The new frame may be worked in. -/
theorem frame (h : Pending s I xs t) : (s.fresh.guard t).frame I := .inr ⟨h.new, h.has⟩

/-- When all names are rebound nothing of the old frame is in reach. -/
theorem holds (h : Pending s I [] t) : s.fresh.Holds t := by
  have honly {E : FrameId} (hE : (s.fresh.guard t).frame E) : E = I := by
    rcases hE with hconstant | ⟨hnew, hhas⟩
    · exact hconstant.elim
    · exact (h.only hhas).resolve_left hnew
  refine ⟨⟨h.object, fun hE hP => ?_, fun hE hb => ?_⟩, fun _ => h.kept.has⟩
  · obtain rfl := honly hE
    rw [h.root] at hP
    cases hP
  · obtain rfl := honly hE
    exact (h.binding hb).resolve_right List.not_mem_nil

theorem alloc {o : Object} (h : Pending s I xs t) (ho : (s.fresh.guard t).Object o) :
    Pending s I xs (t.alloc o).2 ∧ (s.fresh.guard (t.alloc o).2).value (t.alloc o).1 := by
  have hspared := Spared.alloc (fun _ => False) t o
  have hle : (s.fresh.guard t).Le (s.fresh.guard (t.alloc o).2) :=
    Guard.region_mono fun _ => Grown.mono fun _ => hspared.has
  refine ⟨⟨h.kept.trans hspared fun _ _ h => h, h.new, h.has, h.only, h.root, fun {id p} hid hp => ?_,
    fun hb => (h.binding hb).imp_left hle.value, h.names⟩, .inr ⟨fun hold => ?_, Store.hasValue_alloc_self⟩⟩
  · rcases Store.datum_alloc_cases hp with ⟨_, rfl⟩ | hp
    · exact ho.mono hle fun h => h
    · exact (h.object (Grown.of_has hid (Store.hasValue_of_datum hp)) hp).mono hle fun h => h
  · have hlt : t.objects.size < t.objects.size := h.kept.has hold
    omega

/-- One name less is pending. -/
theorem set {v : Value} (h : Pending s I (x :: xs) t) (hv : (s.fresh.guard t).value v) :
    Pending s I xs (t.set I x v) := by
  have hspared : Spared (fun p => p = .frame I) t (t.set I x v) :=
    .set (A := fun p => p = .frame I) rfl x
  have hle : (s.fresh.guard t).Le (s.fresh.guard (t.set I x v)) :=
    Guard.region_mono fun _ => Grown.mono fun _ => hspared.has
  have hbindings : (t.set I x v).bindings I = Bindings.insert x v (t.bindings I) := Store.bindings_set_self h.has
  have hkept : Kept s (t.set I x v) := by
    refine h.kept.trans hspared fun p hp hI => ?_
    subst hI
    exact h.new hp
  refine ⟨hkept, h.new, Store.hasFrame_set.2 h.has, fun hE => h.only (Store.hasFrame_set.1 hE),
    Store.parent?_set.trans h.root, fun {id o} hid ho => ?_, fun {b} hb => ?_, ?_⟩
  · have hd : t.datum (.ref id) = .object o := ho
    exact (h.object (Grown.of_has hid (Store.hasValue_of_datum hd)) hd).mono hle fun h => h
  · rw [hbindings] at hb
    rcases Store.mem_insert_of_nodup h.names hb with rfl | ⟨hb, hx⟩
    · exact .inl (hle.value hv)
    · exact (h.binding hb).imp hle.value fun hmem => (List.mem_cons.1 hmem).resolve_left hx
  · rw [hbindings]
    exact Store.nodup_insert h.names x v

/-- The functions of the class are replaced by functions that work in the frame. -/
theorem addMethods (ms : List (String × Closure)) (h : Pending s I (ms.map Prod.fst) t) :
    Pending s I [] ((ms.forM fun m => do
      let method ← Store.allocM (.function { m.2 with frame := I })
      modify (·.set I m.1 method) : StoreM Unit) t).2 := by
  induction ms generalizing t with
  | nil => exact h
  | cons m ms ih =>
    obtain ⟨halloc, hmethod⟩ := h.alloc (o := .function { m.2 with frame := I }) h.frame
    exact ih (halloc.set hmethod)

end Pending

/-- **Frames of new instances.** The frame of a new instance of a separable class refers to nothing that was there but
constants, and nothing that was there has changed. -/
theorem Store.Separable.instanceFrame {s : Store} {T : FrameId} (hs : s.WellFormed) (hT : s.Separable T) :
    ∃ I t, Store.instanceFrame T s = (I, t) ∧ s.fresh.Holds t ∧ Kept s t ∧ (s.fresh.guard t).frame I := by
  obtain ⟨bs, w, hcopies, hholds, hkept, hready, hnames, hframes⟩ := hT.copyBindings hs
  let t := (w.newFrame ⟨none, bs⟩).2
  let I := (w.newFrame ⟨none, bs⟩).1
  let ms := t.functionsOf T bs
  have hbindings : t.bindings I = bs := Store.bindings_newFrame_self
  have hspared := Spared.newFrame (fun _ => False) w ⟨none, bs⟩
  have hle : (s.fresh.guard w).Le (s.fresh.guard t) := Guard.region_mono fun _ => Grown.mono fun _ => hspared.has
  have hmake : Store.instanceFrame T s = (I, ((ms.forM fun m => do
      let method ← Store.allocM (.function { m.2 with frame := I })
      modify (·.set I m.1 method) : StoreM Unit) t).2) := by
    have hcopy : Store.copyFrame T s = (I, t) := by
      unfold Store.copyFrame
      rw [Store.read_bind]
      exact (Store.bind_of_eq hcopies).trans rfl
    refine (Store.bind_of_eq hcopy).trans ?_
    rw [Store.read_bind, hbindings]
    rfl
  have hpending : Pending s I (ms.map Prod.fst) t := by
    have hkept' : Kept s t := hkept.trans hspared fun _ _ h => h
    refine ⟨hkept', fun hold => ?_, Store.hasFrame_newFrame_self, fun {E} hE => ?_, Store.parent?_newFrame_self,
      fun {id o} hid ho => ?_, fun {b} hb => ?_, ?_⟩
    · have hlt : w.frames.size < s.frames.size := hold
      rw [hframes] at hlt
      omega
    · refine (Store.hasFrame_newFrame_cases hE).symm.imp_left fun hE => ?_
      rwa [Store.HasFrame, hframes] at hE
    · have hd : w.datum (.ref id) = .object o := ho
      exact (hholds.1.object (Grown.of_has hid (Store.hasValue_of_datum hd)) hd).mono hle fun h => h
    · rw [hbindings] at hb
      rcases hready b hb with hknown | ⟨literal, isPublic, hd⟩
      · exact .inl (hle.value hknown)
      · refine .inr (List.mem_map.2 ⟨(b.1, ⟨literal, T, isPublic⟩), List.mem_filterMap.2 ⟨b, hb, ?_⟩, rfl⟩)
        simp [(hkept'.datum (Store.hasValue_of_datum hd)).trans hd]
    · rw [hbindings, hnames]
      exact hs.names T
  have hdone := hpending.addMethods
  exact ⟨I, _, hmake, hdone.holds, hdone.kept, hdone.frame⟩

/-- **New instances.** A new instance of a separable class, made with literals, refers to nothing that was there but
constants, whatever its constructor does. -/
theorem Store.Separable.instantiate {s : Store} {T : FrameId} (hs : s.WellFormed) (hT : s.Separable T)
    (library : Library) (n : Nat) (className name : String) {arguments : List Expr}
    (harguments : ∀ e ∈ arguments, e.IsLiteral) (E : FrameId) :
    s.fresh.Ends [] s
      (fun t v => s.fresh.known t v ∧ ∃ I, t.datum v = .object (.inst name I) ∧ (s.fresh.guard t).frame I)
      (Eval.instantiate (Eval.expr library n) className name T arguments E s) := by
  obtain ⟨I, t, hframe, hholds, hkept, hI⟩ := hT.instanceFrame hs
  have hmade : Eval.ofStore (Store.instanceFrame T) s = .ok I t := by
    show EStateM.Result.ok (Store.instanceFrame T s).1 (Store.instanceFrame T s).2 = _
    rw [hframe]
  -- literals may as well be evaluated in the instance
  have hliteral : ∀ e ∈ arguments, Eval.expr library n e E = Eval.expr library n e I :=
    fun e he => Eval.expr_literal library (harguments e he) n E I
  unfold Eval.instantiate
  rw [Eval.bind_of_ok hmade, Eval.initInstance_congr hliteral]
  have hrecs := Invariant.region_recs s.Constant False s [] library n
  have hinit :
      s.fresh.Ends [] t (fun _ _ => True) (Eval.initInstance (Eval.expr library n) className I arguments I t) :=
    .of_follows (.initInstance hrecs className arguments ⟨rfl, hI⟩ ⟨rfl, hI⟩) (fun _ _ _ => trivial) hholds
  have hnone : Spared (Changeable s.Constant s) s t := hkept.mono fun _ _ => False.elim
  refine Invariant.Ends.after (hinit.bind (List.Subset.refl _) fun _ u hu htu _ => ?_) hnone
  have hIu := (s.fresh.mono htu).frame hI
  obtain ⟨halloc, hlater, hvalue⟩ := s.fresh.alloc (o := .inst name I) hu hIu
  have hle := s.fresh.mono (s.fresh.quiet_later [] hlater)
  exact ⟨halloc, hlater, hvalue, I, Store.datum_alloc_self, hle.frame hIu⟩

end Pron
