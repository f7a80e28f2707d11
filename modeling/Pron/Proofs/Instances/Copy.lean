import Pron.Proofs.Separable

/-!
# What an instance binds

The frame of an instance binds the names of the frame that it is made from. Integers, arrays and hashes are new objects
at every depth, with the same content (`Store.IsCopy`); functions that were made in the frame become functions of the
instance; all else stays the same object, and nothing that was there changes
(`Store.WellFormed.instanceFrame_isInstance`).
-/

namespace Pron

/-! ## Copies of values -/

namespace Object

/-- Objects of which an instance has its own. -/
def IsStorage : Object → Prop
  | integer _ => True
  | array _ => True
  | hash _ => True
  | _ => False

end Object

namespace Store

variable {s t w : Store} {u v v' : Value} {E F I T : FrameId} {x : String}

/-- Values that refer to an integer, an array or a hash. -/
def IsStorage (s : Store) (v : Value) : Prop := ∃ o, s.datum v = .object o ∧ o.IsStorage

/-- A value in a later store is a copy of one in an earlier store. What is copied is new. -/
inductive IsCopy (s t : Store) : Value → Value → Prop
  | same {v : Value} : s.HasValue v → ¬s.IsStorage v → IsCopy s t v v
  | integer {v v' : Value} {n : Int64} : s.datum v = .object (.integer n) → ¬s.HasValue v' →
      t.datum v' = .object (.integer n) → IsCopy s t v v'
  | array {v v' : Value} {us us' : List Value} : s.datum v = .object (.array us) → ¬s.HasValue v' →
      t.datum v' = .object (.array us') → us'.length = us.length → (∀ p ∈ us.zip us', IsCopy s t p.1 p.2) →
      IsCopy s t v v'
  | hash {v v' : Value} {entries entries' : List HashEntry} : s.datum v = .object (.hash entries) → ¬s.HasValue v' →
      t.datum v' = .object (.hash entries') → entries'.length = entries.length →
      (∀ p ∈ entries.zip entries', p.2.content = p.1.content) →
      (∀ p ∈ entries.zip entries', IsCopy s t p.1.key p.2.key) →
      (∀ p ∈ entries.zip entries', IsCopy s t p.1.value p.2.value) → IsCopy s t v v'

/-- A copy is one as long as its objects do not change. -/
theorem IsCopy.of_datum (h : s.IsCopy t v v')
    (hdatum : ∀ {u : Value} {o : Object}, t.datum u = .object o → w.datum u = .object o) : s.IsCopy w v v' := by
  induction h with
  | same hv h => exact .same hv h
  | integer ho hnew ho' => exact .integer ho hnew (hdatum ho')
  | array ho hnew ho' hlength _ ih => exact .array ho hnew (hdatum ho') hlength ih
  | hash ho hnew ho' hlength hcontents _ _ ihkeys ihvalues =>
    exact .hash ho hnew (hdatum ho') hlength hcontents ihkeys ihvalues

theorem IsCopy.later (h : s.IsCopy t v v') (hw : Kept t w) : s.IsCopy w v v' :=
  h.of_datum fun hu => (hw.datum (hasValue_of_datum hu)).trans hu

end Store

/-- An entry with the same content of its key, with copies of the key and the value. -/
structure Store.IsCopiedEntry (s t : Store) (e e' : HashEntry) : Prop where
  content : e'.content = e.content
  key : s.IsCopy t e.key e'.key
  value : s.IsCopy t e.value e'.value

theorem Store.IsCopiedEntry.later {s t w : Store} {e e' : HashEntry} (h : s.IsCopiedEntry t e e') (hw : Kept t w) :
    s.IsCopiedEntry w e e' := ⟨h.content, h.key.later hw, h.value.later hw⟩

/-! ## Actions that change nothing -/

/-- An action changes nothing that is there, and its result has a property. -/
def Yields {α : Type} (s : Store) (x : StoreM α) (P : Store → α → Prop) : Prop := Kept s (x s).2 ∧ P (x s).2 (x s).1

namespace Kept

variable {s t w : Store}

theorem comp (h : Kept s t) (hw : Kept t w) : Kept s w := h.trans hw fun _ _ h => h

theorem hasValue {v : Value} (h : Kept s t) (hv : s.HasValue v) : t.HasValue v := by
  cases v with
  | null | boolean => trivial
  | ref id => exact h.has (p := .object id) hv

end Kept

namespace Yields

variable {α β : Type} {s t : Store} {a : α} {P : Store → α → Prop} {Q : Store → β → Prop}

theorem pure (h : P s a) : Yields s (Pure.pure a) P := ⟨.refl _ s, h⟩

theorem bind {x : StoreM α} {f : α → StoreM β} (hx : Yields s x P)
    (hf : ∀ a t, Kept s t → P t a → Yields t (f a) Q) : Yields s (x >>= f) Q := by
  obtain ⟨hkept, hP⟩ := hx
  obtain ⟨hkept', hQ⟩ := hf _ _ hkept hP
  exact ⟨hkept.comp hkept', hQ⟩

theorem read {f : Store → StoreM β} (h : Yields s (f s) Q) : Yields s (get >>= f) Q := h

theorem allocM {o : Object} : Yields s (Store.allocM o) fun t v => ¬s.HasValue v ∧ t.datum v = .object o := by
  refine ⟨.alloc _ s o, fun hold => ?_, Store.datum_alloc_self⟩
  have hlt : s.objects.size < s.objects.size := hold
  omega

/-- What an action makes of each element. -/
theorem mapM {R : Store → α → β → Prop} (hR : ∀ {t w a b}, Kept t w → R t a b → R w a b) {f : α → StoreM β}
    {as : List α} (hf : ∀ a ∈ as, ∀ t, Kept s t → Yields t (f a) fun w => R w a) :
    Yields s (as.mapM f) fun w => List.Forall₂ (R w) as := by
  induction as generalizing s with
  | nil => exact pure .nil
  | cons a as ih =>
    rw [List.mapM_cons]
    refine (hf a List.mem_cons_self s (.refl _ s)).bind fun b t hst hb => ?_
    refine (ih fun a' ha' w hw => hf a' (List.mem_cons_of_mem _ ha') w (hst.comp hw)).bind fun bs w htw hbs => ?_
    exact pure (.cons (hR htw hb) hbs)

end Yields

namespace Store

variable {s t w : Store} {u v v' : Value} {E F I T : FrameId} {x : String}

/-- A copy up to a bound that is large enough. -/
theorem WellFormed.copyUpTo_isCopy (hs : s.WellFormed) {n : Nat} (hn : depthBound v ≤ n) (hst : Kept s t)
    (hv : s.HasValue v) : Yields t (Store.copyUpTo n v) fun w => s.IsCopy w v := by
  induction n generalizing v t with
  | zero =>
    have hpos := depthBound_pos v
    omega
  | succ n ih =>
    have hpart {u : Value} (hu : s.IsPart u v) (t : Store) (hst : Kept s t) :
        Yields t (Store.copyUpTo n u) fun w => s.IsCopy w u := by
      have hlt := hs.depthBound_lt hu
      obtain ⟨o, ho, hmem⟩ := hu
      exact ih (by omega) hst (hs.hasValue_part ho hmem)
    have hnew {t : Store} (hst : Kept s t) {u : Value} (hu : ¬t.HasValue u) : ¬s.HasValue u := mt hst.hasValue hu
    refine .read ?_
    rw [hst.datum hv]
    cases ho : s.datum v with
    | null | boolean =>
      refine .pure (.same hv ?_)
      rintro ⟨o, ho', -⟩
      rw [ho] at ho'
      cases ho'
    | object o =>
      cases o with
      | integer k => exact ⟨Yields.allocM.1, .integer ho (hnew hst Yields.allocM.2.1) Yields.allocM.2.2⟩
      | array us =>
        refine (Yields.mapM (R := s.IsCopy) (fun h hc => hc.later h) fun u hu w hw =>
          hpart ⟨_, ho, hu⟩ w (hst.comp hw)).bind fun us' t₁ h₁ hcopies => ?_
        obtain ⟨hlength, hcopies⟩ := List.forall₂_iff_zip.1 hcopies
        obtain ⟨hkept, hfresh, hdatum⟩ := Yields.allocM (s := t₁) (o := .array us')
        refine ⟨hkept, .array ho (hnew (hst.comp h₁) hfresh) hdatum hlength.symm fun p hp => ?_⟩
        exact (hcopies hp).later hkept
      | hash entries =>
        have hentry (e : HashEntry) (he : e ∈ entries) (w : Store) (hw : Kept s w) :
            Yields w (do return { e with key := ← Store.copyUpTo n e.key, value := ← Store.copyUpTo n e.value })
              fun w => s.IsCopiedEntry w e := by
          refine (hpart ⟨_, ho, Object.key_mem_parts he⟩ w hw).bind fun key w₁ h₁ hkey => ?_
          refine (hpart ⟨_, ho, Object.value_mem_parts he⟩ w₁ (hw.comp h₁)).bind fun value w₂ h₂ hvalue => ?_
          exact .pure ⟨rfl, hkey.later h₂, hvalue⟩
        refine (Yields.mapM (R := s.IsCopiedEntry) (fun h hc => hc.later h) fun e he w hw =>
          hentry e he w (hst.comp hw)).bind fun entries' t₁ h₁ hcopies => ?_
        obtain ⟨hlength, hcopies⟩ := List.forall₂_iff_zip.1 hcopies
        obtain ⟨hkept, hfresh, hdatum⟩ := Yields.allocM (s := t₁) (o := .hash entries')
        exact ⟨hkept, .hash ho (hnew (hst.comp h₁) hfresh) hdatum hlength.symm (fun p hp => (hcopies hp).content)
          (fun p hp => (hcopies hp).key.later hkept) fun p hp => (hcopies hp).value.later hkept⟩
      | _ =>
        refine .pure (.same hv ?_)
        rintro ⟨o, ho', hstorage⟩
        rw [ho] at ho'
        cases ho'
        exact hstorage

/-! ## Frames of instances -/

/-- What the frame of an instance binds in the place of a value. -/
inductive IsOwn (s t : Store) (T I : FrameId) : Value → Value → Prop
  /-- functions that were made in the frame itself -/
  | method {v v' : Value} {literal : FunctionLit} {isPublic : Bool} :
      s.datum v = .object (.function ⟨literal, T, isPublic⟩) → ¬s.HasValue v' →
      t.datum v' = .object (.function ⟨literal, I, isPublic⟩) → IsOwn s t T I v v'
  | copy {v v' : Value} : ¬s.MadeIn T v → s.IsCopy t v v' → IsOwn s t T I v v'

/-- The frame of a new instance with the store in which it is there. -/
structure IsInstance (s : Store) (T I : FrameId) (t : Store) : Prop where
  kept : Kept s t
  new : ¬s.HasFrame I
  has : t.HasFrame I
  root : t.parent? I = none
  names : (t.bindings I).names = (s.bindings T).names
  binding {x : String} {v : Value} : (x, v) ∈ s.bindings T → ∃ v', (x, v') ∈ t.bindings I ∧ s.IsOwn t T I v v'

theorem names_insert {bs : Bindings} (h : x ∈ bs.names) : (Bindings.insert x v bs).names = bs.names := by
  induction bs with
  | nil => cases h
  | cons b rest ih =>
    obtain ⟨y, w⟩ := b
    unfold Bindings.insert
    split
    · next hxy => rw [hxy]; rfl
    · next hxy =>
      have hrest : x ∈ Bindings.names rest := (List.mem_cons.1 h).resolve_left hxy
      exact congrArg (y :: ·) (ih hrest)

theorem lookup_of_mem {bs : Bindings} (hbs : bs.names.Nodup) (h : (x, v) ∈ bs) : bs.lookup x = some v := by
  induction bs with
  | nil => cases h
  | cons b rest ih =>
    obtain ⟨hb, hrest⟩ := List.nodup_cons.1 hbs
    rcases List.mem_cons.1 h with rfl | h
    · simp
    · have hmem : x ∈ Bindings.names rest := List.mem_map_of_mem (f := Prod.fst) h
      have hne : x ≠ b.1 := fun hx => hb (hx ▸ hmem)
      rw [List.lookup_cons, beq_false_of_ne hne]
      exact ih hrest h

theorem mem_of_lookup {bs : Bindings} (h : bs.lookup x = some v) : (x, v) ∈ bs := by
  obtain ⟨front, back, hbs, -⟩ := List.lookup_eq_some_iff.1 h
  simp [hbs]

/-- The functions of a frame are found under their names, each once. -/
theorem names_functionsOf (s : Store) (T : FrameId) (bs : Bindings) :
    ((s.functionsOf T bs).map Prod.fst).Sublist bs.names := by
  induction bs with
  | nil => exact .slnil
  | cons b rest ih =>
    obtain ⟨x, v⟩ := b
    unfold functionsOf at ih ⊢
    rw [List.filterMap_cons]
    split
    · exact ih.cons x
    · next m hm =>
      have hx : m.1 = x := by
        dsimp only at hm
        split at hm
        · next closure _ =>
          by_cases hT : closure.frame = T
          · rw [if_pos hT] at hm
            cases hm
            rfl
          · rw [if_neg hT] at hm
            cases hm
        · cases hm
      rw [List.map_cons, hx]
      exact ih.cons_cons x

theorem mem_functionsOf {bs : Bindings} {closure : Closure} : (x, closure) ∈ s.functionsOf T bs ↔
    ∃ v, (x, v) ∈ bs ∧ s.datum v = .object (.function closure) ∧ closure.frame = T := by
  unfold functionsOf
  rw [List.mem_filterMap]
  constructor
  · rintro ⟨⟨y, v⟩, hb, hm⟩
    dsimp only at hm
    split at hm
    · next c hc =>
      split at hm
      · next hT =>
        cases hm
        exact ⟨v, hb, hc, hT⟩
      · cases hm
    · cases hm
  · rintro ⟨v, hb, hd, hT⟩
    refine ⟨(x, v), hb, ?_⟩
    dsimp only
    rw [hd]
    simp [hT]

/-- Functions that work in a frame are made and bound there. -/
def addMethods (I : FrameId) (ms : List (String × Closure)) : StoreM Unit :=
  ms.forM fun m => do
    let method ← allocM (.function { m.2 with frame := I })
    modify (·.set I m.1 method)

/-- What a frame binds after functions were added that it has names for. -/
structure Methods (I : FrameId) (ms : List (String × Closure)) (s t : Store) : Prop where
  spared : Spared (fun p => p = .frame I) s t
  names : (t.bindings I).names = (s.bindings I).names
  other {y : String} : y ∉ ms.map Prod.fst → (t.bindings I).lookup y = (s.bindings I).lookup y
  method {m : String × Closure} : m ∈ ms → ∃ v, (t.bindings I).lookup m.1 = some v ∧ ¬s.HasValue v ∧
    t.datum v = .object (.function { m.2 with frame := I })

theorem addMethods_methods {ms : List (String × Closure)} (hI : s.HasFrame I) (hms : (ms.map Prod.fst).Nodup)
    (hnames : ∀ x ∈ ms.map Prod.fst, x ∈ (s.bindings I).names) : Methods I ms s (addMethods I ms s).2 := by
  induction ms generalizing s with
  | nil => exact ⟨.refl _ s, rfl, fun _ => rfl, nofun⟩
  | cons m ms ih =>
    obtain ⟨hm, hms⟩ := List.nodup_cons.1 hms
    obtain ⟨hname, hnames⟩ := List.forall_mem_cons.1 hnames
    let v := (s.alloc (.function { m.2 with frame := I })).1
    let s₁ := (s.alloc (.function { m.2 with frame := I })).2
    let s₂ := s₁.set I m.1 v
    have hbindings : s₂.bindings I = Bindings.insert m.1 v (s.bindings I) := bindings_set_self (s := s₁) hI
    have hnames₂ : (s₂.bindings I).names = (s.bindings I).names := by rw [hbindings, names_insert hname]
    have hspared : Spared (fun p => p = .frame I) s s₂ :=
      (Spared.alloc _ s _).trans (.set (A := fun p => p = .frame I) rfl m.1) fun _ _ => id
    have hrest := ih (s := s₂) (hasFrame_set.2 hI) hms (by rw [hnames₂]; exact hnames)
    refine ⟨hspared.trans hrest.spared fun _ _ => id, hrest.names.trans hnames₂, fun {y} hy => ?_, fun {m'} hm' => ?_⟩
    · obtain ⟨hne, hy⟩ := not_or.1 (mt List.mem_cons.2 hy)
      have hy₂ := hrest.other hy
      rwa [hbindings, Bindings.lookup_insert_of_ne hne] at hy₂
    · rcases List.mem_cons.1 hm' with rfl | hm'
      · have hv := hrest.other hm
        rw [hbindings, Bindings.lookup_insert_self] at hv
        have hd : s₂.datum v = .object (.function { m'.2 with frame := I }) := datum_alloc_self
        exact ⟨v, hv, Yields.allocM.2.1, hrest.spared.fixed hd trivial⟩
      · obtain ⟨u, hu, hnew, hd⟩ := hrest.method hm'
        exact ⟨u, hu, fun h => hnew (hasValue_alloc h), hd⟩

/-- A binding of a name to a copy. -/
def IsCopiedBinding (s t : Store) (b c : String × Value) : Prop := c.1 = b.1 ∧ s.IsCopy t b.2 c.2

theorem IsCopiedBinding.later {b c : String × Value} (h : s.IsCopiedBinding t b c) (hw : Kept t w) :
    s.IsCopiedBinding w b c := ⟨h.1, h.2.later hw⟩

/-- The copies of what a frame binds. -/
theorem WellFormed.copyBindings (hs : s.WellFormed) (T : FrameId) :
    Yields s ((s.bindings T).mapM fun b => do return (b.1, ← copyValue b.2)) fun w =>
      List.Forall₂ (s.IsCopiedBinding w) (s.bindings T) := by
  refine Yields.mapM (R := s.IsCopiedBinding) (fun h hc => hc.later h) fun b hb w hw => ?_
  refine (hs.copyUpTo_isCopy (Nat.le_refl (depthBound b.2)) hw (hs.binding hb)).bind fun v w' _ hv => ?_
  exact .pure ⟨rfl, hv⟩

theorem exists_of_forall₂ {α β : Type} {R : α → β → Prop} {as : List α} {bs : List β} (h : List.Forall₂ R as bs) {a : α}
    (ha : a ∈ as) : ∃ b ∈ bs, R a b := by
  induction h with
  | nil => cases ha
  | cons hab _ ih =>
    rcases List.mem_cons.1 ha with rfl | ha
    · exact ⟨_, List.mem_cons_self, hab⟩
    · obtain ⟨b, hb, hab⟩ := ih ha
      exact ⟨b, List.mem_cons_of_mem _ hb, hab⟩

/-- Functions are not copied with the values. -/
theorem IsCopy.function (h : s.IsCopy t v v') {closure : Closure} (hs : s.datum v = .object (.function closure)) :
    v = v' := by
  cases h with
  | same => rfl
  | integer ho | array ho | hash ho =>
    rw [hs] at ho
    cases ho

/-- What a copy is of is a function if the copy is one. -/
theorem IsCopy.of_function (h : s.IsCopy t v v') {closure : Closure} (ht : t.datum v' = .object (.function closure)) :
    v = v' := by
  cases h with
  | same => rfl
  | integer _ _ ho | array _ _ ho | hash _ _ ho =>
    rw [ht] at ho
    cases ho

/-- The frame of an instance is a new frame with copies, to which methods are added. -/
theorem instanceFrame_eq {bs : Bindings}
    (h : ((s.bindings T).mapM fun b => do return (b.1, ← copyValue b.2) : StoreM Bindings) s = (bs, t)) :
    instanceFrame T s = ((t.newFrame ⟨none, bs⟩).1,
      (addMethods (t.newFrame ⟨none, bs⟩).1 ((t.newFrame ⟨none, bs⟩).2.functionsOf T bs)
        (t.newFrame ⟨none, bs⟩).2).2) := by
  let I := (t.newFrame ⟨none, bs⟩).1
  let w := (t.newFrame ⟨none, bs⟩).2
  have hbindings : w.bindings I = bs := bindings_newFrame_self
  have hcopy : copyFrame T s = (I, w) := by
    unfold copyFrame
    rw [read_bind]
    exact (bind_of_eq h).trans rfl
  refine (bind_of_eq hcopy).trans ?_
  rw [read_bind, hbindings]
  rfl

/-- No method is added under the name of a copy, unless what it is a copy of is a function of the frame. -/
theorem IsCopy.not_mem_functionsOf (h : s.IsCopy t v v') (hst : Kept s t) (hv : s.HasValue v) (hmade : ¬s.MadeIn T v)
    {bs : Bindings} (hbs : bs.names.Nodup) (hb : (x, v') ∈ bs) : x ∉ (t.functionsOf T bs).map Prod.fst := by
  intro hx
  obtain ⟨⟨y, closure⟩, hm, hy⟩ := List.mem_map.1 hx
  obtain rfl : x = y := hy.symm
  obtain ⟨u, hu, hd, hT⟩ := mem_functionsOf.1 hm
  -- no name is bound twice
  have hlookup := (lookup_of_mem hbs hb).symm.trans (lookup_of_mem hbs hu)
  cases hlookup
  obtain rfl := h.of_function hd
  refine hmade ⟨closure.literal, closure.isPublic, ?_⟩
  rw [← hst.datum hv, hd, ← hT]

/-- An instance gets copies of what the frame binds, and functions of its own for those that were made in the frame. -/
theorem WellFormed.instanceFrame_isInstance (hs : s.WellFormed) (T : FrameId) :
    s.IsInstance T (instanceFrame T s).1 (instanceFrame T s).2 := by
  obtain ⟨hkept, hcopies⟩ := hs.copyBindings T
  have hframes := frames_copyBindings (s.bindings T) s
  have hnames := names_copyBindings (s.bindings T) s
  generalize hmap : ((s.bindings T).mapM fun b => do return (b.1, ← copyValue b.2) : StoreM Bindings) s = p
    at hkept hcopies hframes hnames
  obtain ⟨bs, w⟩ := p
  dsimp only at hkept hcopies hframes hnames
  let I := (w.newFrame ⟨none, bs⟩).1
  let t := (w.newFrame ⟨none, bs⟩).2
  let ms := t.functionsOf T bs
  have hbindings : t.bindings I = bs := bindings_newFrame_self
  have hmake : instanceFrame T s = (I, (addMethods I ms t).2) := instanceFrame_eq hmap
  rw [hmake]
  have hnodup : (Bindings.names bs).Nodup := hnames ▸ hs.names T
  have hsublist := t.names_functionsOf T bs
  have hmethods : Methods I ms t (addMethods I ms t).2 :=
    addMethods_methods hasFrame_newFrame_self (hnodup.sublist hsublist) (hbindings ▸ hsublist.subset)
  generalize (addMethods I ms t).2 = t' at hmethods
  have hnew : ¬s.HasFrame I := fun hold => by
    have hlt : w.frames.size < s.frames.size := hold
    rw [hframes] at hlt
    omega
  have hst : Kept s t := hkept.comp (.newFrame _ w _)
  have hst' : Kept s t' := hst.trans hmethods.spared fun p hp hI => by
    subst hI
    exact hnew hp
  refine ⟨hst', hnew, hmethods.spared.has (p := .frame I) hasFrame_newFrame_self,
    (hmethods.spared.parent hasFrame_newFrame_self).trans parent?_newFrame_self,
    (hmethods.names.trans (congrArg _ hbindings)).trans hnames, fun {x v} hb => ?_⟩
  obtain ⟨⟨y, v'⟩, hb', hy, hcopy⟩ := exists_of_forall₂ hcopies hb
  obtain rfl : x = y := hy.symm
  replace hcopy : s.IsCopy t v v' := hcopy.later (.newFrame _ w _)
  by_cases hmade : s.MadeIn T v
  · -- it is one of the functions that have been replaced
    obtain ⟨literal, isPublic, hd⟩ := hmade
    obtain rfl := hcopy.function hd
    have hm : (x, ⟨literal, T, isPublic⟩) ∈ ms :=
      mem_functionsOf.2 ⟨v, hb', (hst.datum (hasValue_of_datum hd)).trans hd, rfl⟩
    obtain ⟨u, hu, hfresh, hdu⟩ := hmethods.method hm
    exact ⟨u, mem_of_lookup hu, .method hd (mt hst.hasValue hfresh) hdu⟩
  · have hx : x ∉ ms.map Prod.fst := hcopy.not_mem_functionsOf hst (hs.binding hb) hmade hnodup hb'
    have hv' := hmethods.other hx
    rw [hbindings, lookup_of_mem hnodup hb'] at hv'
    refine ⟨v', mem_of_lookup hv', .copy hmade (hcopy.of_datum fun {u o} hu => ?_)⟩
    cases u with
    | null | boolean => cases hu
    | ref id => exact (hmethods.spared.datum (hasValue_of_datum hu) fun h => by cases h).trans hu

end Store

end Pron
