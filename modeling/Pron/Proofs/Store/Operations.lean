import Mathlib.Data.List.Forall2
import Pron.Store.Copy

/-!
# What the operations of a store change

Which objects and frames are there after an operation, and what they are. A new object or frame has the next free
number; nothing but `write` changes an object, and nothing but `set` changes a frame.
-/

namespace Pron

/-! ## What an object refers to -/

namespace Object

/-- The values that an array or a hash holds. -/
def parts : Object → List Value
  | array elements => elements
  | hash entries => entries.flatMap fun e => [e.key, e.value]
  | _ => []

/-- The frame of a function, a constructor or an instance. -/
def frame? : Object → Option FrameId
  | function closure => some closure.frame
  | inst _ E => some E
  | init _ E => some E
  | _ => none

/-- Objects that stay what they are. -/
def Fixed : Object → Prop
  | integer _ => False
  | hash _ => False
  | _ => True

theorem key_mem_parts {e : HashEntry} {entries : List HashEntry} (h : e ∈ entries) : e.key ∈ (hash entries).parts :=
  List.mem_flatMap.2 ⟨e, h, List.mem_cons_self⟩

theorem value_mem_parts {e : HashEntry} {entries : List HashEntry} (h : e ∈ entries) :
    e.value ∈ (hash entries).parts :=
  List.mem_flatMap.2 ⟨e, h, List.mem_cons_of_mem _ List.mem_cons_self⟩

/-- The parts of a hash are its keys and its values. -/
theorem mem_parts_hash {v : Value} {entries : List HashEntry} (h : v ∈ (hash entries).parts) :
    ∃ e ∈ entries, v = e.key ∨ v = e.value := by
  obtain ⟨e, he, hv⟩ := List.mem_flatMap.1 h
  exact ⟨e, he, by simpa using hv⟩

end Object

namespace Store

variable {s : Store} {E F P : FrameId} {v : Value} {id : ObjectId} {o p : Object} {x : String}

/-! ## Objects -/

/-- Values that refer to an object that is there, or to none. -/
def HasValue (s : Store) : Value → Prop
  | .ref id => id.index < s.objects.size
  | _ => True

/-- A value that refers to an object is there. -/
theorem hasValue_of_datum (h : s.datum v = .object o) : s.HasValue v := by
  cases v with
  | null | boolean => trivial
  | ref id =>
    by_contra hid
    have hnone : s.objects[id.index]? = none := Array.getElem?_eq_none (Nat.le_of_not_lt hid)
    simp [datum, hnone] at h

/-- An object that is there is some object. -/
theorem datum_ref (h : s.HasValue (.ref id)) : ∃ o, s.objects[id.index]? = some o ∧ s.datum (.ref id) = .object o := by
  have hid : id.index < s.objects.size := h
  refine ⟨s.objects[id.index], Array.getElem?_eq_getElem hid, ?_⟩
  simp only [datum, Array.getElem?_eq_getElem hid]

theorem objects_of_datum (h : s.datum (.ref id) = .object o) : s.objects[id.index]? = some o := by
  obtain ⟨p, hp, hd⟩ := datum_ref (hasValue_of_datum h)
  rw [h] at hd
  cases hd
  exact hp

/-- Values that were there are there after a new object is made. -/
theorem hasValue_alloc (h : s.HasValue v) : (s.alloc o).2.HasValue v := by
  cases v with
  | null | boolean => trivial
  | ref id =>
    have hid : id.index < s.objects.size := h
    show id.index < (s.objects.push o).size
    rw [Array.size_push]
    omega

theorem hasValue_alloc_self : (s.alloc o).2.HasValue (s.alloc o).1 := by
  show s.objects.size < (s.objects.push o).size
  rw [Array.size_push]
  omega

/-- The new reference refers to the new object. -/
theorem datum_alloc_self : (s.alloc o).2.datum (s.alloc o).1 = .object o := by
  simp [alloc, datum]

/-- A new object changes nothing else, not even references that lead nowhere. -/
theorem datum_alloc_of_ne (h : v ≠ (s.alloc o).1) : (s.alloc o).2.datum v = s.datum v := by
  cases v with
  | null | boolean => rfl
  | ref id =>
    have hid : id.index ≠ s.objects.size := fun heq => h (congrArg (fun n => Value.ref ⟨n⟩) heq)
    simp [alloc, datum, Array.getElem?_push, hid]

/-- Values that were there refer to what they did. -/
theorem datum_alloc (h : s.HasValue v) : (s.alloc o).2.datum v = s.datum v := by
  refine datum_alloc_of_ne ?_
  rintro rfl
  exact Nat.lt_irrefl _ h

/-- An object after one was added is the new one, or was there before. -/
theorem datum_alloc_cases (h : (s.alloc o).2.datum v = .object p) :
    v = (s.alloc o).1 ∧ p = o ∨ s.datum v = .object p := by
  by_cases hv : v = (s.alloc o).1
  · subst hv
    rw [datum_alloc_self] at h
    cases h
    exact .inl ⟨rfl, rfl⟩
  · exact .inr (datum_alloc_of_ne hv ▸ h)

theorem size_write : (s.write id o).objects.size = s.objects.size := Array.size_setIfInBounds

/-- Writing adds no values. -/
theorem hasValue_write : (s.write id o).HasValue v ↔ s.HasValue v := by
  cases v with
  | null | boolean => exact Iff.rfl
  | ref i =>
    show i.index < (s.write id o).objects.size ↔ i.index < s.objects.size
    rw [size_write]

/-- What is written is what is then there. -/
theorem datum_write_self (h : s.HasValue (.ref id)) : (s.write id o).datum (.ref id) = .object o := by
  have hid : id.index < s.objects.size := h
  simp [write, datum, hid]

/-- Other values refer to what they did. -/
theorem datum_write_of_ne (h : v ≠ .ref id) : (s.write id o).datum v = s.datum v := by
  cases v with
  | null | boolean => rfl
  | ref i =>
    have hi : id.index ≠ i.index := by
      rintro hi
      exact h (congrArg _ (congrArg ObjectId.mk hi).symm)
    simp [write, datum, hi]

/-- An object after one was changed is that one, or was there before. -/
theorem datum_write_cases (h : (s.write id o).datum v = .object p) :
    v = .ref id ∧ p = o ∨ v ≠ .ref id ∧ s.datum v = .object p := by
  by_cases hv : v = .ref id
  · subst hv
    have hid := hasValue_write.1 (hasValue_of_datum h)
    rw [datum_write_self hid] at h
    cases h
    exact .inl ⟨rfl, rfl⟩
  · exact .inr ⟨hv, datum_write_of_ne hv ▸ h⟩

/-! ## Frames -/

/-- Frames that are there. -/
def HasFrame (s : Store) (E : FrameId) : Prop := E.index < s.frames.size

/-- A frame binds a name to the value under which its bindings hold it. -/
theorem localValue?_eq (s : Store) (E : FrameId) (x : String) : s.localValue? E x = (s.bindings E).lookup x := by
  unfold localValue? bindings
  cases s.frames[E.index]? <;> rfl

/-- Only frames that are there are inside of others. -/
theorem hasFrame_of_parent (h : s.parent? E = some P) : s.HasFrame E := by
  by_contra hE
  have hnone : s.frames[E.index]? = none := Array.getElem?_eq_none (Nat.le_of_not_lt hE)
  simp [parent?, hnone] at h

/-- Frames that are not there bind nothing. -/
theorem bindings_of_not_hasFrame (h : ¬s.HasFrame E) : s.bindings E = [] := by
  have hnone : s.frames[E.index]? = none := Array.getElem?_eq_none (Nat.le_of_not_lt h)
  simp [bindings, hnone]

theorem hasFrame_of_binding {b : String × Value} (h : b ∈ s.bindings E) : s.HasFrame E := by
  by_contra hE
  have hnone : s.frames[E.index]? = none := Array.getElem?_eq_none (Nat.le_of_not_lt hE)
  simp [bindings, hnone] at h

variable {f : Frame}

/-- Frames that were there are there after a new one is made. -/
theorem hasFrame_newFrame (h : s.HasFrame E) : (s.newFrame f).2.HasFrame E := by
  have hE : E.index < s.frames.size := h
  show E.index < (s.frames.push f).size
  rw [Array.size_push]
  omega

theorem hasFrame_newFrame_self : (s.newFrame f).2.HasFrame (s.newFrame f).1 := by
  show s.frames.size < (s.frames.push f).size
  rw [Array.size_push]
  omega

/-- Frames that were there are what they were. -/
theorem frames_newFrame (h : s.HasFrame E) : (s.newFrame f).2.frames[E.index]? = s.frames[E.index]? := by
  have hE : E.index < s.frames.size := h
  simp [newFrame, Array.getElem?_push, Nat.ne_of_lt hE]

theorem frames_newFrame_self : (s.newFrame f).2.frames[(s.newFrame f).1.index]? = some f := by simp [newFrame]

/-- A frame that was there is inside of what it was. -/
theorem parent?_newFrame (h : s.HasFrame E) : (s.newFrame f).2.parent? E = s.parent? E := by
  rw [parent?, parent?, frames_newFrame h]

theorem parent?_newFrame_self : (s.newFrame f).2.parent? (s.newFrame f).1 = f.parent := by
  rw [parent?, frames_newFrame_self]
  rfl

/-- A frame that was there binds what it did. -/
theorem bindings_newFrame (h : s.HasFrame E) : (s.newFrame f).2.bindings E = s.bindings E := by
  rw [bindings, bindings, frames_newFrame h]

theorem bindings_newFrame_self : (s.newFrame f).2.bindings (s.newFrame f).1 = f.bindings := by
  rw [bindings, frames_newFrame_self]
  rfl

/-- A frame after one was added is the new one, or was there before. -/
theorem hasFrame_newFrame_cases (h : (s.newFrame f).2.HasFrame E) : E = (s.newFrame f).1 ∨ s.HasFrame E := by
  have hE : E.index < (s.frames.push f).size := h
  rw [Array.size_push] at hE
  by_cases hlt : E.index < s.frames.size
  · exact .inr hlt
  · exact .inl (congrArg FrameId.mk (by omega : E.index = s.frames.size))

theorem size_set : (s.set E x v).frames.size = s.frames.size := Array.size_modify

/-- Assignments make no frames. -/
theorem hasFrame_set : (s.set E x v).HasFrame F ↔ s.HasFrame F := by
  rw [HasFrame, HasFrame, size_set]

/-- Other frames are what they were. -/
theorem frames_set_of_ne (h : E ≠ F) : (s.set E x v).frames[F.index]? = s.frames[F.index]? := by
  have hindex : E.index ≠ F.index := fun he => h (congrArg FrameId.mk he)
  simp [set, Array.getElem?_modify, hindex]

theorem frames_set_self : (s.set E x v).frames[E.index]? = s.frames[E.index]?.map (·.bind x v) := by
  simp [set, Array.getElem?_modify]

/-- An assignment moves no frame. -/
theorem parent?_set : (s.set E x v).parent? F = s.parent? F := by
  by_cases h : E = F
  · subst h
    rw [parent?, parent?, frames_set_self]
    cases s.frames[E.index]? <;> rfl
  · rw [parent?, parent?, frames_set_of_ne h]

theorem bindings_set_of_ne (h : E ≠ F) : (s.set E x v).bindings F = s.bindings F := by
  rw [bindings, bindings, frames_set_of_ne h]

/-- The name is bound to the new value, in its old place or at the end. -/
theorem bindings_set_self (h : s.HasFrame E) : (s.set E x v).bindings E = Bindings.insert x v (s.bindings E) := by
  rw [bindings, bindings, frames_set_self, Array.getElem?_eq_getElem h]
  rfl

/-- A binding is the new one or was there. -/
theorem mem_insert {b : String × Value} {bs : Bindings} (h : b ∈ Bindings.insert x v bs) : b = (x, v) ∨ b ∈ bs := by
  induction bs with
  | nil => exact .inl (by simpa [Bindings.insert] using h)
  | cons c rest ih =>
    obtain ⟨y, w⟩ := c
    unfold Bindings.insert at h
    split at h
    · exact (List.mem_cons.1 h).imp_right (List.mem_cons_of_mem _)
    · rcases List.mem_cons.1 h with rfl | h
      · exact .inr List.mem_cons_self
      · exact (ih h).imp_right (List.mem_cons_of_mem _)

/-- Where no name is bound twice, the new binding takes the place of the old one. -/
theorem mem_insert_of_nodup {b : String × Value} {bs : Bindings} (hbs : bs.names.Nodup)
    (h : b ∈ Bindings.insert x v bs) : b = (x, v) ∨ b ∈ bs ∧ b.1 ≠ x := by
  induction bs with
  | nil => exact .inl (by simpa [Bindings.insert] using h)
  | cons c rest ih =>
    obtain ⟨y, w⟩ := c
    obtain ⟨hy, hrest⟩ := List.nodup_cons.1 hbs
    unfold Bindings.insert at h
    split at h
    · rename_i hxy
      rcases List.mem_cons.1 h with rfl | hb
      · exact .inl rfl
      · refine .inr ⟨List.mem_cons_of_mem _ hb, fun hx => hy ?_⟩
        have hmem : b.1 ∈ Bindings.names rest := List.mem_map_of_mem hb
        rwa [hx, hxy] at hmem
    · rename_i hxy
      rcases List.mem_cons.1 h with rfl | h
      · exact .inr ⟨List.mem_cons_self, Ne.symm hxy⟩
      · exact (ih hrest h).imp_right fun h => ⟨List.mem_cons_of_mem _ h.1, h.2⟩

/-- A binding after a name was bound is the one of that name, or was there before. -/
theorem mem_bindings_set {b : String × Value} (h : b ∈ (s.set E x v).bindings F) :
    E = F ∧ b = (x, v) ∨ b ∈ s.bindings F := by
  by_cases hE : E = F
  · subst hE
    have hframe : s.HasFrame E := hasFrame_set.1 (hasFrame_of_binding h)
    rw [bindings_set_self hframe] at h
    exact (mem_insert h).imp_left fun h => ⟨rfl, h⟩
  · exact .inr (bindings_set_of_ne hE ▸ h)

/-! ## Scopes -/

section Scopes

variable {t : Store} (h : t.frames = s.frames)

include h

theorem parent?_congr : t.parent? E = s.parent? E := by rw [parent?, parent?, h]

theorem bindings_congr : t.bindings E = s.bindings E := by rw [bindings, bindings, h]

/-- Which frames are around one depends on the frames only. -/
theorem chainUpTo_congr (n : Nat) : t.chainUpTo n E = s.chainUpTo n E := by
  induction n generalizing E with
  | zero => rfl
  | succ n ih =>
    unfold chainUpTo
    rw [parent?_congr h]
    cases s.parent? E with
    | none => rfl
    | some P => exact congrArg (E :: ·) ih

/-- Which frame binds a name depends on the frames only. -/
theorem binder?_congr : t.binder? E x = s.binder? E x := by
  unfold binder? chain localValue?
  rw [chainUpTo_congr h, h]

/-- What a name is bound to depends on the frames only. -/
theorem get?_congr : t.get? E x = s.get? E x := by
  unfold get? localValue?
  rw [binder?_congr h, h]

end Scopes

section Roots

variable (h : s.parent? E = none)

include h

/-- Around a frame without a parent there is nothing. -/
theorem chainUpTo_of_root (n : Nat) : s.chainUpTo n E = [E] := by
  cases n with
  | zero => rfl
  | succ n =>
    unfold chainUpTo
    rw [h]

/-- A root looks names up in itself only. -/
theorem get?_of_root (x : String) : s.get? E x = (s.bindings E).lookup x := by
  rw [← localValue?_eq]
  unfold get? binder? chain
  rw [chainUpTo_of_root h]
  cases hv : s.localValue? E x <;> simp [hv]

/-- What is found from a frame without a parent is bound in it. -/
theorem mem_bindings_of_get? (hx : s.get? E x = some v) : (x, v) ∈ s.bindings E := by
  rw [get?_of_root h] at hx
  obtain ⟨front, back, hbindings, _⟩ := List.lookup_eq_some_iff.1 hx
  simp [hbindings]

/-- A name is bound to what it was assigned. -/
theorem get?_set_of_root (hE : s.HasFrame E) : (s.set E x v).get? E x = some v := by
  rw [get?_of_root (parent?_set.trans h), bindings_set_self hE, Bindings.lookup_insert_self]

theorem get?_set_of_root_of_ne (hE : s.HasFrame E) {y : String} (hy : y ≠ x) :
    (s.set E x v).get? E y = s.get? E y := by
  rw [get?_of_root (parent?_set.trans h), get?_of_root h, bindings_set_self hE, Bindings.lookup_insert_of_ne hy]

theorem root_of_root : s.root E = E := by
  unfold root chain
  rw [chainUpTo_of_root h]
  rfl

end Roots

/-! ## Logs -/

/-- The store in which other things were printed and asked for. -/
def withLogs (s : Store) (printed : String) (requests : List String) : Store := { s with printed, requests }

theorem get?_withLogs (printed : String) (requests : List String) :
    (s.withLogs printed requests).get? E x = s.get? E x :=
  get?_congr rfl

/-! ## Copies -/

section Copies

variable {α β : Type}

theorem read_bind (f : Store → StoreM α) (s : Store) : (get >>= f) s = f s s := rfl

/-- The second action runs with the result and the store of the first. -/
theorem bind_of_eq {x : StoreM α} {f : α → StoreM β} {a : α} {t : Store} (h : x s = (a, t)) : (x >>= f) s = f a t := by
  show f (x s).1 (x s).2 = f a t
  rw [h]

/-- Actions that agree on a store, and go on alike from there. -/
theorem bind_eq {x y : StoreM α} {f g : α → StoreM β} (hx : x s = y s)
    (hf : f (x s).1 (x s).2 = g (x s).1 (x s).2) : (x >>= f) s = (y >>= g) s := by
  show f (x s).1 (x s).2 = g (y s).1 (y s).2
  rw [← hx, hf]

/-- What each action is known to result in. -/
theorem mapM_forall₂ {P : α → β → Prop} {f : α → StoreM β} (h : ∀ a s, P a (f a s).1) (as : List α) (s : Store) :
    List.Forall₂ P as (as.mapM f s).1 := by
  induction as generalizing s with
  | nil => exact .nil
  | cons a as ih =>
    rw [List.mapM_cons]
    exact .cons (h a s) (ih _)

/-- What none of the actions changes. -/
theorem mapM_snd {γ : Type} {g : Store → γ} {f : α → StoreM β} (h : ∀ a s, g (f a s).2 = g s) (as : List α)
    (s : Store) :
    g (as.mapM f s).2 = g s := by
  induction as generalizing s with
  | nil => rfl
  | cons a as ih =>
    rw [List.mapM_cons]
    exact (ih (f a s).2).trans (h a s)

/-- Copied entries have the contents that they had. -/
theorem copyEntries_contents (n : Nat) (entries : List HashEntry) (s : Store) :
    ((entries.mapM fun e => do
      return { e with key := ← copyUpTo n e.key, value := ← copyUpTo n e.value } : StoreM _) s).1.map
        HashEntry.content = entries.map HashEntry.content := by
  have h := mapM_forall₂ (P := fun (d : HashEntry) (e : HashEntry) => e.content = d.content)
    (f := fun e => do return { e with key := ← copyUpTo n e.key, value := ← copyUpTo n e.value })
    (fun _ _ => rfl) entries s
  exact List.forall₂_eq_eq_eq ▸ List.forall₂_map_left_iff.2 (List.forall₂_map_right_iff.2 h.flip)

section Kept

variable {γ : Type} {g : Store → γ} (halloc : ∀ (o : Object) (s : Store), o.frame? = none → g (s.alloc o).2 = g s)

include halloc

/-- Copies are integers, arrays and hashes: what is as it was after these are made is as it was after copying. -/
theorem copyUpTo_snd (n : Nat) (v : Value) (s : Store) : g (copyUpTo n v s).2 = g s := by
  induction n generalizing v s with
  | zero => rfl
  | succ n ih =>
    have hmapM {α β : Type} {f : α → StoreM β} (hf : ∀ a s, g (f a s).2 = g s) (as : List α)
        {o : List β → Object} (ho : ∀ bs, (o bs).frame? = none) :
        g ((as.mapM f >>= fun bs => allocM (o bs)) s).2 = g s :=
      (halloc _ _ (ho _)).trans (mapM_snd hf as s)
    unfold copyUpTo
    rw [read_bind]
    cases s.datum v with
    | null | boolean => rfl
    | object o =>
      cases o with
      | integer k => exact halloc _ _ rfl
      | array elements => exact hmapM ih elements fun _ => rfl
      | hash entries =>
        have hentry (e : HashEntry) (s : Store) :
            g ((do return { e with key := ← copyUpTo n e.key, value := ← copyUpTo n e.value } : StoreM HashEntry) s).2 =
              g s := (ih e.value _).trans (ih e.key s)
        exact hmapM hentry entries fun _ => rfl
      | _ => rfl

/-- Copies of bindings keep what copies of values keep. -/
theorem copyBindings_snd (bs : Bindings) (s : Store) :
    g ((bs.mapM fun b => do return (b.1, ← copyValue b.2) : StoreM Bindings) s).2 = g s :=
  have hcopy (b : String × Value) (s : Store) :
      g ((do return (b.1, ← copyValue b.2) : StoreM (String × Value)) s).2 = g s :=
    copyUpTo_snd halloc (depthBound b.2) b.2 s
  mapM_snd hcopy bs s

end Kept

/-- The copies of bindings have their names. -/
theorem names_copyBindings (bs : Bindings) (s : Store) :
    Bindings.names ((bs.mapM fun b => do return (b.1, ← copyValue b.2) : StoreM Bindings) s).1 = bs.names := by
  have h := mapM_forall₂ (P := fun (b : String × Value) (c : String × Value) => c.1 = b.1)
    (f := fun b => do return (b.1, ← copyValue b.2)) (fun _ _ => rfl) bs s
  exact List.forall₂_eq_eq_eq ▸ List.forall₂_map_left_iff.2 (List.forall₂_map_right_iff.2 h.flip)

/-- Copying values makes no frames and changes none. -/
theorem frames_copyBindings (bs : Bindings) (s : Store) :
    ((bs.mapM fun b => do return (b.1, ← copyValue b.2) : StoreM Bindings) s).2.frames = s.frames :=
  copyBindings_snd (g := frames) (fun _ _ _ => rfl) bs s

end Copies

/-! ## Names that are bound together -/

/-- The names of some bindings are all the names that some frame binds. -/
def Binds (s : Store) (bs : Bindings) : Prop := ∃ E, bs.names = (s.bindings E).names

theorem binds_nil (s : Store) : s.Binds [] := by
  refine ⟨⟨s.frames.size⟩, ?_⟩
  simp [bindings]

/-- Binding a name does not add it where it is bound. -/
theorem nodup_insert {bs : Bindings} (h : bs.names.Nodup) (x : String) (v : Value) :
    (Bindings.insert x v bs).names.Nodup := by
  induction bs with
  | nil => simp [Bindings.insert, Bindings.names]
  | cons b rest ih =>
    obtain ⟨y, w⟩ := b
    obtain ⟨hy, hrest⟩ := List.nodup_cons.1 h
    unfold Bindings.insert
    split
    · rename_i hxy
      exact List.nodup_cons.2 ⟨hxy ▸ hy, hrest⟩
    · rename_i hxy
      refine List.nodup_cons.2 ⟨fun hmem => ?_, ih hrest⟩
      obtain ⟨c, hc, hcy⟩ := List.mem_map.1 hmem
      rcases mem_insert hc with rfl | hc
      · exact hxy hcy
      · exact hy (hcy ▸ List.mem_map_of_mem hc)

end Store

end Pron
