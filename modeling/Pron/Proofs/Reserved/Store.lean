import Pron.Proofs.Growth
import Pron.Proofs.Syntax.Names

/-!
# A reserved name

The word `Init` is no name (`not_isName_initName`), so that no text can mention the binding of a constructor. In the
stores that programs make, a constructor is bound to `Init`, in a frame that is made for a class or an instance, and is
found nowhere else: all other bindings, and arrays and hashes, hold other values (`Store.Reserved`). This module says
which changes of a store keep it so, the making of copies included.
-/

namespace Pron

/-- The constructor of a class is bound to a keyword. -/
theorem not_isName_initName : ¬ IsName Eval.initName := by
  rintro ⟨hword, -⟩
  exact absurd hword (by decide)

/-- What the text of a function or a constructor mentions. -/
def Object.mentions : Object → List Mention
  | function closure => closure.literal.mentions
  | init constructor _ => constructor.mentions
  | _ => []

namespace Store

variable {s t : Store} {E F T : FrameId} {u v : Value} {id : ObjectId} {o p : Object} {x : String}

/-! ## Constructors and other values -/

/-- Values that refer to a constructor. -/
def IsConstructor (s : Store) (v : Value) : Prop := (s.datum v).type = .init

/-- Values that refer to another object, or to none. -/
def Ordinary (s : Store) (v : Value) : Prop := s.HasValue v ∧ ¬ s.IsConstructor v

/-- Entries of ordinary values. -/
def OrdinaryEntry (s : Store) (e : HashEntry) : Prop := s.Ordinary e.key ∧ s.Ordinary e.value

/-- Frames of classes and of instances: these are made without a frame around them, and the only other such frame is
that of the session. -/
def IsOwner (s : Store) (E : FrameId) : Prop := s.HasFrame E ∧ s.parent? E = none ∧ E ≠ Session.start.frame

/-- A constructor under the reserved name, or another value under a name. -/
def Proper (s : Store) (b : String × Value) : Prop :=
  IsName b.1 ∧ s.Ordinary b.2 ∨ b.1 = Eval.initName ∧ s.IsConstructor b.2

/-- A binding that a frame may hold. -/
def Rightful (s : Store) (E : FrameId) (b : String × Value) : Prop := s.Proper b ∧ (b.1 = Eval.initName → s.IsOwner E)

theorem ordinary_null (s : Store) : s.Ordinary .null := ⟨trivial, nofun⟩

theorem ordinary_boolean (s : Store) (b : Bool) : s.Ordinary (.boolean b) := ⟨trivial, nofun⟩

/-- Objects other than constructors are ordinary. -/
theorem ordinary_of_datum (h : s.datum v = .object o) (ho : o.type ≠ .init) : s.Ordinary v := by
  refine ⟨hasValue_of_datum h, ?_⟩
  rw [IsConstructor, h]
  exact ho

theorem ordinary_alloc_self (ho : o.type ≠ .init) : (s.alloc o).2.Ordinary (s.alloc o).1 :=
  ordinary_of_datum datum_alloc_self ho

/-- A constructor has a text and the frame of its class. -/
theorem IsConstructor.cases (h : s.IsConstructor v) : ∃ constructor C, s.datum v = .object (.init constructor C) := by
  unfold IsConstructor at h
  cases hd : s.datum v with
  | null | boolean => rw [hd] at h; cases h
  | object o =>
    rw [hd] at h
    cases o with
    | init constructor C => exact ⟨constructor, C, rfl⟩
    | _ => cases h

theorem IsConstructor.hasValue (h : s.IsConstructor v) : s.HasValue v := by
  obtain ⟨_, _, hd⟩ := h.cases
  exact hasValue_of_datum hd

section Later

variable (h : s.Becomes t)

include h

/-- Values that are there stay there. -/
theorem Becomes.hasValue (hv : s.HasValue v) : t.HasValue v := by
  cases v with
  | null | boolean => trivial
  | ref id =>
    obtain ⟨o, -, ho⟩ := datum_ref hv
    obtain ⟨p, hp, -⟩ := h.object ho
    exact hasValue_of_datum hp

theorem Becomes.type_eq (hv : s.HasValue v) : (t.datum v).type = (s.datum v).type := by
  cases v with
  | null | boolean => rfl
  | ref id =>
    obtain ⟨o, -, ho⟩ := datum_ref hv
    obtain ⟨p, hp, hop⟩ := h.object ho
    rw [ho, hp]
    exact hop.type_eq

/-- Ordinary values stay ordinary, since objects keep their types. -/
theorem Becomes.ordinary (hv : s.Ordinary v) : t.Ordinary v := by
  refine ⟨h.hasValue hv.1, ?_⟩
  rw [IsConstructor, h.type_eq hv.1]
  exact hv.2

theorem Becomes.ordinaryEntry {e : HashEntry} (he : s.OrdinaryEntry e) : t.OrdinaryEntry e :=
  ⟨h.ordinary he.1, h.ordinary he.2⟩

/-- Constructors stay constructors. -/
theorem Becomes.isConstructor (hv : s.IsConstructor v) : t.IsConstructor v := (h.type_eq hv.hasValue).trans hv

theorem Becomes.isOwner (hE : s.IsOwner E) : t.IsOwner E := ⟨h.hasFrame hE.1, (h.parent hE.1).trans hE.2.1, hE.2.2⟩

theorem Becomes.proper {b : String × Value} (hb : s.Proper b) : t.Proper b :=
  hb.imp (fun ⟨hx, hv⟩ => ⟨hx, h.ordinary hv⟩) fun ⟨hx, hv⟩ => ⟨hx, h.isConstructor hv⟩

theorem Becomes.rightful {b : String × Value} (hb : s.Rightful E b) : t.Rightful E b :=
  ⟨h.proper hb.1, fun hx => h.isOwner (hb.2 hx)⟩

end Later

/-! ## Where the name is reserved -/

/-- Constructors are bound in the frames of classes and instances, under a name that is reserved for them, and are found
nowhere else. Texts mention, and the units asked for have, other names. -/
structure Reserved (s : Store) : Prop where
  text {v : Value} {o : Object} : s.datum v = .object o → NamesAre IsName o.mentions
  part {v u : Value} {o : Object} : s.datum v = .object o → u ∈ o.parts → s.Ordinary u
  binding {E : FrameId} {b : String × Value} : b ∈ s.bindings E → s.Rightful E b
  session : s.HasFrame Session.start.frame
  request : ∀ x ∈ s.requests, IsName x

/-- An object that may be made: it is a constructor or holds ordinary values, and its text mentions names. -/
structure Harmless (s : Store) (o : Object) : Prop where
  text : NamesAre IsName o.mentions
  part : ∀ u ∈ o.parts, s.Ordinary u

/-- A hash of ordinary entries has ordinary parts and mentions no names. -/
theorem harmless_hash {entries : List HashEntry} (h : ∀ e ∈ entries, s.OrdinaryEntry e) :
    s.Harmless (.hash entries) := by
  refine ⟨NamesAre.nil, fun u hu => ?_⟩
  obtain ⟨e, he, rfl | rfl⟩ := Object.mem_parts_hash hu
  · exact (h e he).1
  · exact (h e he).2

namespace Reserved

/-! ## Names -/

theorem localValue? (hs : s.Reserved) (hx : s.localValue? E x = some v) : s.Proper (x, v) := by
  rw [localValue?_eq] at hx
  obtain ⟨front, back, hbindings, -⟩ := List.lookup_eq_some_iff.1 hx
  exact (hs.binding (E := E) (by simp [hbindings])).1

/-- A name stands for an ordinary value. -/
theorem ordinary_localValue? (hs : s.Reserved) (hx : IsName x) (h : s.localValue? E x = some v) : s.Ordinary v := by
  rcases hs.localValue? h with ⟨-, hv⟩ | ⟨rfl, -⟩
  · exact hv
  · exact absurd hx not_isName_initName

theorem localValue?_of_get? (h : s.get? E x = some v) : ∃ F, s.localValue? F x = some v := by
  unfold Store.get? at h
  obtain ⟨F, -, hF⟩ := Option.bind_eq_some_iff.1 h
  exact ⟨F, hF⟩

/-- A name other than the reserved one is bound to an ordinary value. -/
theorem get? (hs : s.Reserved) (hx : IsName x) (h : s.get? E x = some v) : s.Ordinary v := by
  obtain ⟨F, hF⟩ := localValue?_of_get? h
  exact hs.ordinary_localValue? hx hF

/-- What is bound under the reserved name is a constructor. -/
theorem get?_initName (hs : s.Reserved) (h : s.get? E Eval.initName = some v) : s.IsConstructor v := by
  obtain ⟨F, hF⟩ := localValue?_of_get? h
  rcases hs.localValue? hF with ⟨hx, -⟩ | ⟨-, hv⟩
  · exact absurd hx not_isName_initName
  · exact hv

/-! ## Changes -/

/-- Nothing has changed but the logs. -/
theorem withLogs (hs : s.Reserved) (printed : String) {requests : List String} (h : ∀ x ∈ requests, IsName x) :
    (s.withLogs printed requests).Reserved := ⟨hs.text, hs.part, hs.binding, hs.session, h⟩

theorem alloc (hs : s.Reserved) (ho : s.Harmless o) : (s.alloc o).2.Reserved where
  text hp := by
    rcases datum_alloc_cases hp with ⟨-, rfl⟩ | hp
    · exact ho.text
    · exact hs.text hp
  part hp hu := by
    refine (Becomes.alloc s o).ordinary ?_
    rcases datum_alloc_cases hp with ⟨-, rfl⟩ | hp
    · exact ho.part _ hu
    · exact hs.part hp hu
  binding hb := (Becomes.alloc s o).rightful (hs.binding hb)
  session := hs.session
  request := hs.request

/-- A frame that is made is one of a class or an instance unless it is made inside another, as for calls, loops and
constructors. -/
theorem isOwner_newFrame (hs : s.Reserved) {f : Frame} :
    (s.newFrame f).2.IsOwner (s.newFrame f).1 ↔ f.parent = none := by
  refine ⟨fun h => parent?_newFrame_self.symm.trans h.2.1, fun hf => ?_⟩
  refine ⟨hasFrame_newFrame_self, parent?_newFrame_self.trans hf, fun h => ?_⟩
  have hsession : Session.start.frame.index < s.frames.size := hs.session
  have hindex : s.frames.size = Session.start.frame.index := congrArg FrameId.index h
  omega

/-- A new frame; only one of a class or an instance may bind a constructor. -/
theorem newFrame (hs : s.Reserved) {f : Frame} (hf : ∀ b ∈ f.bindings, s.Proper b)
    (hparent : f.parent ≠ none → f.bindings = []) : (s.newFrame f).2.Reserved where
  text := hs.text
  part hp hu := (Becomes.newFrame s f).ordinary (hs.part hp hu)
  binding hb := by
    rcases hasFrame_newFrame_cases (hasFrame_of_binding hb) with rfl | hE
    · rw [bindings_newFrame_self] at hb
      refine ⟨(Becomes.newFrame s f).proper (hf _ hb), fun _ => hs.isOwner_newFrame.2 ?_⟩
      by_contra hne
      rw [hparent hne] at hb
      cases hb
    · rw [bindings_newFrame hE] at hb
      exact (Becomes.newFrame s f).rightful (hs.binding hb)
  session := hasFrame_newFrame hs.session
  request := hs.request

theorem set (hs : s.Reserved) (hb : s.Rightful E (x, v)) : (s.set E x v).Reserved where
  text := hs.text
  part hp hu := (Becomes.set s E x v).ordinary (hs.part hp hu)
  binding h := by
    refine (Becomes.set s E x v).rightful ?_
    rcases mem_bindings_set h with ⟨rfl, rfl⟩ | h
    · exact hb
    · exact hs.binding h
  session := hasFrame_set.2 hs.session
  request := hs.request

/-- A name is bound to an ordinary value. -/
theorem setName (hs : s.Reserved) (E : FrameId) (hx : IsName x) (hv : s.Ordinary v) : (s.set E x v).Reserved :=
  hs.set ⟨.inl ⟨hx, hv⟩, fun h => absurd (h ▸ hx) not_isName_initName⟩

theorem write (hs : s.Reserved) (h : s.datum (.ref id) = .object o) (hop : o.Becomes p) (hp : s.Harmless p) :
    (s.write id p).Reserved where
  text hq := by
    rcases datum_write_cases hq with ⟨-, rfl⟩ | ⟨-, hq⟩
    · exact hp.text
    · exact hs.text hq
  part hq hu := by
    refine (Becomes.write h hop).ordinary ?_
    rcases datum_write_cases hq with ⟨-, rfl⟩ | ⟨-, hq⟩
    · exact hp.part _ hu
    · exact hs.part hq hu
  binding hb := (Becomes.write h hop).rightful (hs.binding hb)
  session := hs.session
  request := hs.request

end Reserved

/-! ## Copies -/

/-- An action on a store keeps the name reserved, and has a result as described. -/
def Keeps {α : Type} (s : Store) (R : Store → α → Prop) (x : StoreM α) : Prop :=
  s.Reserved → (x s).2.Reserved ∧ s.Becomes (x s).2 ∧ R (x s).2 (x s).1

namespace Keeps

variable {α β : Type} {R : Store → α → Prop} {Q : Store → β → Prop}

theorem pure {a : α} (h : R s a) : Keeps s R (Pure.pure a) := fun hs => ⟨hs, .refl s, h⟩

theorem bind {x : StoreM α} {f : α → StoreM β} (hx : Keeps s R x) (hf : ∀ a t, s.Becomes t → R t a → Keeps t Q (f a)) :
    Keeps s Q (x >>= f) := by
  intro hs
  obtain ⟨ht, hst, ha⟩ := hx hs
  obtain ⟨hu, htu, hb⟩ := hf _ _ hst ha ht
  exact ⟨hu, hst.trans htu, hb⟩

/-- The action may depend on the store. -/
theorem read {f : Store → StoreM β} (h : s.Reserved → Keeps s Q (f s)) : Keeps s Q (get >>= f) := fun hs => h hs hs

theorem allocM (ho : s.Harmless o) (htype : o.type ≠ .init) : Keeps s Ordinary (Store.allocM o) :=
  fun hs => ⟨hs.alloc ho, .alloc s o, ordinary_alloc_self htype⟩

/-- One result after the other. -/
theorem mapM {r : Store → α → Prop} (hr : ∀ {s t a}, s.Becomes t → r s a → r t a)
    (hQ : ∀ {s t b}, s.Becomes t → Q s b → Q t b) {as : List α} (has : ∀ a ∈ as, r s a) {f : α → StoreM β}
    (hf : ∀ t a, r t a → Keeps t Q (f a)) : Keeps s (fun t bs => ∀ b ∈ bs, Q t b) (as.mapM f) := by
  induction as generalizing s with
  | nil => exact pure nofun
  | cons a as ih =>
    obtain ⟨ha, has⟩ := List.forall_mem_cons.1 has
    rw [List.mapM_cons]
    refine (hf s a ha).bind fun b t hst hb => ?_
    refine (ih fun a h => hr hst (has a h)).bind fun bs u htu hbs => ?_
    exact pure (List.forall_mem_cons.2 ⟨hQ htu hb, hbs⟩)

theorem forM {as : List α} {r : α → Prop} (has : ∀ a ∈ as, r a) {f : α → StoreM Unit}
    (hf : ∀ t a, s.Becomes t → r a → Keeps t (fun _ _ => True) (f a)) : Keeps s (fun _ _ => True) (as.forM f) := by
  induction as generalizing s with
  | nil => exact pure trivial
  | cons a as ih =>
    obtain ⟨ha, has⟩ := List.forall_mem_cons.1 has
    show Keeps s (fun _ _ => True) (f a >>= fun _ => as.forM f)
    exact (hf s a (.refl s) ha).bind fun _ t hst _ => ih has fun u a htu => hf u a (hst.trans htu)

/-- Copies of ordinary values are ordinary, by induction on the depth. -/
theorem copyUpTo (n : Nat) (hv : s.Ordinary v) : Keeps s Ordinary (Store.copyUpTo n v) := by
  induction n generalizing s v with
  | zero => exact pure hv
  | succ n ih =>
    refine read fun hs => ?_
    split
    · exact allocM ⟨NamesAre.nil, nofun⟩ nofun
    · next elements hd =>
      refine (mapM (r := Ordinary) (Q := Ordinary) (fun h hv => h.ordinary hv) (fun h hv => h.ordinary hv)
        (fun u hu => hs.part hd hu) fun t u hu => ih hu).bind ?_
      exact fun copies t _ h => allocM ⟨NamesAre.nil, h⟩ nofun
    · next entries hd =>
      have hentries : ∀ e ∈ entries, OrdinaryEntry s e :=
        fun e he => ⟨hs.part hd (Object.key_mem_parts he), hs.part hd (Object.value_mem_parts he)⟩
      have hcopy (t : Store) (e : HashEntry) (he : OrdinaryEntry t e) :
          Keeps t OrdinaryEntry (do return ⟨e.content, ← Store.copyUpTo n e.key, ← Store.copyUpTo n e.value⟩) := by
        refine (ih he.1).bind fun key u htu hkey => (ih (htu.ordinary he.2)).bind fun value w huw hvalue => ?_
        exact pure ⟨huw.ordinary hkey, hvalue⟩
      refine (mapM (r := OrdinaryEntry) (Q := OrdinaryEntry) (fun h he => h.ordinaryEntry he)
        (fun h he => h.ordinaryEntry he) hentries hcopy).bind ?_
      exact fun copies t _ h => allocM (harmless_hash h) nofun
    · exact pure hv

/-- A constructor is not copied. -/
theorem copyValue_constructor (hv : s.IsConstructor v) : Store.copyValue v s = (v, s) := by
  obtain ⟨constructor, C, hd⟩ := hv.cases
  have hdepth : ∃ n, depthBound v = n + 1 := by
    cases v with
    | null | boolean => cases hd
    | ref id => exact ⟨id.index + 1, rfl⟩
  obtain ⟨n, hn⟩ := hdepth
  rw [Store.copyValue, hn, Store.copyUpTo, read_bind, hd]
  rfl

theorem copyBinding {b : String × Value} (hb : s.Proper b) :
    Keeps s Proper (do return (b.1, ← Store.copyValue b.2)) := by
  rcases hb with ⟨hx, hv⟩ | ⟨hx, hv⟩
  · exact (copyUpTo _ hv).bind fun copy t _ hcopy => pure (.inl ⟨hx, hcopy⟩)
  · have hself : Keeps s IsConstructor (Store.copyValue b.2) := by
      intro hs
      rw [copyValue_constructor hv]
      exact ⟨hs, .refl s, hv⟩
    exact hself.bind fun copy t _ hcopy => pure (.inr ⟨hx, hcopy⟩)

/-- Constructors come into the frames of instances with the other bindings of their classes. -/
theorem copyFrame (T : FrameId) : Keeps s IsOwner (Store.copyFrame T) := by
  refine read fun hs => ?_
  refine (mapM (r := Proper) (Q := Proper) (fun h hb => h.proper hb) (fun h hb => h.proper hb)
    (fun b hb => (hs.binding hb).1) fun t b hb => copyBinding hb).bind ?_
  intro copies t _ hcopies ht
  exact ⟨ht.newFrame hcopies fun h => absurd rfl h, .newFrame t _, ht.isOwner_newFrame.2 rfl⟩

/-- Functions are bound to names, and mention names. -/
theorem functionsOf (hs : s.Reserved) {bs : Bindings} (hbs : ∀ b ∈ bs, s.Proper b) (T : FrameId) :
    ∀ p ∈ s.functionsOf T bs, IsName p.1 ∧ NamesAre IsName p.2.literal.mentions := by
  intro p hp
  obtain ⟨b, hb, hfunction⟩ := List.mem_filterMap.1 hp
  dsimp only at hfunction
  split at hfunction
  · next closure hd =>
    split at hfunction <;> cases hfunction
    refine ⟨?_, hs.text hd⟩
    rcases hbs b hb with ⟨hx, -⟩ | ⟨-, hv⟩
    · exact hx
    · rw [IsConstructor, hd] at hv
      cases hv
  · cases hfunction

theorem addMethod {I : FrameId} {p : String × Closure} (hx : IsName p.1)
    (htext : NamesAre IsName p.2.literal.mentions) :
    Keeps s (fun _ _ => True)
      (do
        let method ← Store.allocM (.function { p.2 with frame := I })
        modify (·.set I p.1 method)) := by
  have hfunction : s.Harmless (.function { p.2 with frame := I }) := ⟨htext, nofun⟩
  exact (allocM hfunction nofun).bind fun method t _ hmethod ht =>
    ⟨ht.setName I hx hmethod, .set t I p.1 method, trivial⟩

/-- The frame of an instance is one in which a constructor may be bound. -/
theorem instanceFrame (T : FrameId) : Keeps s IsOwner (Store.instanceFrame T) := by
  refine (copyFrame T).bind fun I t _ hI => read fun ht => ?_
  have hmethods := functionsOf ht (fun b hb => (ht.binding (E := I) hb).1) T
  refine (forM hmethods fun u p _ hp => addMethod hp.1 hp.2).bind fun _ u htu _ => pure (htu.isOwner hI)

end Keeps

end Store

end Pron
