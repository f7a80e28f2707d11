import Pron.Proofs.Invariant
import Pron.Proofs.Store.Scope

/-!
# Well-formed stores

In a well-formed store the frame around a frame is older than the frame, what an array or a hash holds is older than it,
and there is nothing around the frame of a class or an instance (`Store.WellFormed`). Frames and functions may refer to
each other in circles, but the frames around a frame and the values inside a value do not (`wellFounded_parent`,
`wellFounded_part`): chains, texts and copies come to an end, and the bounds on their depth are never met
(`chainUpTo_eq`, `displayUpTo_eq`, `copyUpTo_eq`). Every reachable state is well formed (`Reachable.wellFormed`).
-/

namespace Pron

namespace Store

variable {s t : Store} {E F P : FrameId} {u v : Value} {id : ObjectId} {o : Object} {x : String}

/-! ## Well-formed stores -/

/-- Parents, elements, keys and values are older than what refers to them, frames of instances are roots, and no frame
binds a name twice. -/
structure WellFormed (s : Store) : Prop where
  parent_lt {E P : FrameId} : s.parent? E = some P → P.index < E.index
  part_lt {id j : ObjectId} {o : Object} : s.datum (.ref id) = .object o → .ref j ∈ o.parts → j.index < id.index
  root {v : Value} {className : String} {E : FrameId} : s.datum v = .object (.inst className E) → s.parent? E = none
  frame {v : Value} {o : Object} {E : FrameId} : s.datum v = .object o → o.frame? = some E → s.HasFrame E
  binding {E : FrameId} {b : String × Value} : b ∈ s.bindings E → s.HasValue b.2
  names (E : FrameId) : (s.bindings E).names.Nodup
  sorted {v : Value} {entries : List HashEntry} : s.datum v = .object (.hash entries) → Entries.Sorted entries

/-- What is there. -/
def known (s : Store) : Guard where
  value := s.HasValue
  frame := s.HasFrame
  owner E := s.HasFrame E ∧ s.parent? E = none
  maker := s.HasFrame
  filed _ _ := True
  ordered := True

/-- Nothing disappears, and frames stay inside the same frames. -/
structure Extends (s t : Store) : Prop where
  value {v : Value} : s.HasValue v → t.HasValue v
  frame {E : FrameId} : s.HasFrame E → t.HasFrame E
  parent {E : FrameId} : s.HasFrame E → t.parent? E = s.parent? E

namespace Extends

theorem refl (s : Store) : s.Extends s := ⟨id, id, fun _ => rfl⟩

theorem trans {s₁ s₂ s₃ : Store} (h₁ : s₁.Extends s₂) (h₂ : s₂.Extends s₃) : s₁.Extends s₃ :=
  ⟨fun h => h₂.value (h₁.value h), fun h => h₂.frame (h₁.frame h),
    fun h => (h₂.parent (h₁.frame h)).trans (h₁.parent h)⟩

theorem known (h : s.Extends t) : s.known.Le t.known where
  value := h.value
  frame := h.frame
  owner := fun ⟨hE, hroot⟩ => ⟨h.frame hE, (h.parent hE).trans hroot⟩
  maker := h.frame
  ordered := id

theorem alloc (s : Store) (o : Object) : s.Extends (s.alloc o).2 :=
  ⟨hasValue_alloc, id, fun _ => rfl⟩

theorem newFrame (s : Store) (f : Frame) : s.Extends (s.newFrame f).2 :=
  ⟨id, hasFrame_newFrame, parent?_newFrame⟩

theorem set (s : Store) (E : FrameId) (x : String) (v : Value) : s.Extends (s.set E x v) where
  value := id
  frame := hasFrame_set.2
  parent _ := parent?_set

theorem write (s : Store) (id : ObjectId) (o : Object) : s.Extends (s.write id o) :=
  ⟨hasValue_write.2, fun h => h, fun _ => rfl⟩

end Extends

namespace WellFormed

variable (hs : s.WellFormed)

theorem hasValue_part (hs : s.WellFormed) (ho : s.datum v = .object o) (hu : u ∈ o.parts) : s.HasValue u := by
  cases u with
  | null | boolean => trivial
  | ref j =>
    cases v with
    | null | boolean => cases ho
    | ref id =>
      have hid : id.index < s.objects.size := hasValue_of_datum ho
      exact Nat.lt_trans (hs.part_lt ho hu) hid

/-- Everything that an object refers to is there. -/
theorem object (hs : s.WellFormed) (ho : s.datum v = .object o) : s.known.Object o := by
  cases o with
  | integer | real | text | builtin => trivial
  | array elements => exact fun u hu => hs.hasValue_part ho hu
  | hash entries =>
    refine ⟨fun e he => ⟨trivial, ?_, ?_⟩, fun _ => hs.sorted ho⟩
    · exact hs.hasValue_part ho (Object.key_mem_parts he)
    · exact hs.hasValue_part ho (Object.value_mem_parts he)
  | function closure => exact hs.frame ho rfl
  | inst className E => exact ⟨hs.frame ho rfl, hs.root ho⟩
  | init constructor E => exact hs.frame ho rfl

end WellFormed

/-! ## What keeps a store well formed -/

theorem known_parts (ho : s.known.Object o) (hu : u ∈ o.parts) : s.HasValue u := by
  cases o with
  | array elements => exact ho u hu
  | hash entries =>
    obtain ⟨e, he, rfl | rfl⟩ := Object.mem_parts_hash hu
    · exact (ho.1 e he).key
    · exact (ho.1 e he).value
  | _ => cases hu

theorem known_frame (ho : s.known.Object o) (hE : o.frame? = some E) : s.HasFrame E := by
  cases o with
  | function | init => cases hE; exact ho
  | inst => cases hE; exact ho.1
  | _ => cases hE

namespace WellFormed

theorem alloc (hs : s.WellFormed) (ho : s.known.Object o) : (s.alloc o).2.WellFormed where
  parent_lt := hs.parent_lt
  part_lt {id j p} hp hj := by
    rcases datum_alloc_cases hp with ⟨hid, rfl⟩ | hp
    · cases hid
      exact known_parts ho hj
    · exact hs.part_lt hp hj
  root {v className E} hp := by
    rcases datum_alloc_cases hp with ⟨_, rfl⟩ | hp
    · exact ho.2
    · exact hs.root hp
  frame {v p E} hp hE := by
    rcases datum_alloc_cases hp with ⟨_, rfl⟩ | hp
    · show s.HasFrame E
      exact known_frame ho hE
    · exact hs.frame hp hE
  binding hb := hasValue_alloc (hs.binding hb)
  names := hs.names
  sorted {v entries} hp := by
    rcases datum_alloc_cases hp with ⟨_, rfl⟩ | hp
    · exact ho.2 trivial
    · exact hs.sorted hp

theorem newFrame {f : Frame} (hs : s.WellFormed) (hparent : ∀ P, f.parent = some P → s.HasFrame P)
    (hbindings : ∀ b ∈ f.bindings, s.HasValue b.2) (hnames : f.bindings.names.Nodup) :
    (s.newFrame f).2.WellFormed where
  parent_lt {E P} hP := by
    rcases hasFrame_newFrame_cases (hasFrame_of_parent hP) with rfl | hE
    · rw [parent?_newFrame_self] at hP
      exact hparent P hP
    · rw [parent?_newFrame hE] at hP
      exact hs.parent_lt hP
  part_lt := hs.part_lt
  root ho := (parent?_newFrame (hs.frame ho rfl)).trans (hs.root ho)
  frame ho hE := hasFrame_newFrame (hs.frame ho hE)
  binding {E b} hb := by
    rcases hasFrame_newFrame_cases (hasFrame_of_binding hb) with rfl | hE
    · rw [bindings_newFrame_self] at hb
      exact hbindings b hb
    · rw [bindings_newFrame hE] at hb
      exact hs.binding hb
  names E := by
    by_cases hE : s.HasFrame E
    · rw [bindings_newFrame hE]
      exact hs.names E
    · by_cases hnew : E = (s.newFrame f).1
      · rw [hnew, bindings_newFrame_self]
        exact hnames
      · rw [bindings_of_not_hasFrame fun h => (hasFrame_newFrame_cases h).elim hnew hE]
        exact List.nodup_nil
  sorted := hs.sorted

theorem set (hs : s.WellFormed) (x : String) (hv : s.HasValue v) : (s.set E x v).WellFormed where
  parent_lt hP := hs.parent_lt (parent?_set ▸ hP)
  part_lt := hs.part_lt
  root ho := parent?_set.trans (hs.root ho)
  frame ho hE := (Extends.set s E x v).frame (hs.frame ho hE)
  binding hb := by
    rcases mem_bindings_set hb with ⟨_, rfl⟩ | hb
    · exact hv
    · exact hs.binding hb
  names F := by
    by_cases hF : E = F
    · subst hF
      by_cases hE : s.HasFrame E
      · rw [bindings_set_self hE]
        exact nodup_insert (hs.names E) x v
      · rw [bindings_of_not_hasFrame fun h => hE (hasFrame_set.1 h)]
        exact List.nodup_nil
    · rw [bindings_set_of_ne hF]
      exact hs.names F
  sorted := hs.sorted

/-- An object may be changed if it keeps its kind and no part comes in. -/
theorem write {p : Object} (hs : s.WellFormed) (hp : s.datum (.ref id) = .object p)
    (hparts : ∀ v ∈ o.parts, v ∈ p.parts) (hframe : o.frame? = none)
    (hsorted : ∀ entries, o = .hash entries → Entries.Sorted entries) : (s.write id o).WellFormed where
  parent_lt := hs.parent_lt
  part_lt {i j q} hq hj := by
    rcases datum_write_cases hq with ⟨hid, rfl⟩ | ⟨_, hq⟩
    · cases hid
      exact hs.part_lt hp (hparts _ hj)
    · exact hs.part_lt hq hj
  root {v className E} hq := by
    rcases datum_write_cases hq with ⟨_, rfl⟩ | ⟨_, hq⟩
    · cases hframe
    · exact hs.root hq
  frame {v q E} hq hE := by
    rcases datum_write_cases hq with ⟨_, rfl⟩ | ⟨_, hq⟩
    · rw [hframe] at hE
      cases hE
    · exact hs.frame hq hE
  binding hb := hasValue_write.2 (hs.binding hb)
  names := hs.names
  sorted {v entries} hq := by
    rcases datum_write_cases hq with ⟨_, rfl⟩ | ⟨_, hq⟩
    · exact hsorted entries rfl
    · exact hs.sorted hq

theorem writeInteger {n : Int64} (hs : s.WellFormed) (hn : s.datum (.ref id) = .object (.integer n)) (m : Int64) :
    (s.write id (.integer m)).WellFormed :=
  hs.write hn (fun _ h => h) rfl fun _ h => by cases h

theorem erase {entries : List HashEntry} (hs : s.WellFormed) (hh : s.datum (.ref id) = .object (.hash entries))
    (c : HashKey) : (s.write id (.hash (Entries.erase c entries))).WellFormed := by
  refine hs.write hh (fun v hv => ?_) rfl fun es hes => ?_
  · obtain ⟨e, he, hv⟩ := Object.mem_parts_hash hv
    have he := (List.mem_filter.1 he).1
    rcases hv with rfl | rfl
    · exact Object.key_mem_parts he
    · exact Object.value_mem_parts he
  · cases hes
    exact (hs.sorted hh).erase c

theorem withLogs (hs : s.WellFormed) (printed : String) (requests : List String) :
    (s.withLogs printed requests).WellFormed :=
  ⟨hs.parent_lt, hs.part_lt, hs.root, hs.frame, hs.binding, hs.names, hs.sorted⟩

end WellFormed

end Store

/-! ## Well-formedness as an invariant -/

namespace Invariant

open Store

/-- Stores are and stay well formed. -/
def wellFormed : Invariant where
  Holds := Store.WellFormed
  Later _ := Store.Extends
  Quiet := Store.Extends
  guard := Store.known
  refl _ := Extends.refl
  trans := Extends.trans
  mono := Extends.known
  quiet_refl := Extends.refl
  quiet_trans := Extends.trans
  fewer _ h := h
  quiet_later _ h := h
  filed_mono _ _ := trivial
  filed_later _ _ _ := trivial
  null _ := trivial
  boolean _ _ := trivial
  owner_frame h := h.1
  owner_maker h := h.1
  object hs _ ho := hs.object ho
  parent hs hE hP := Nat.lt_trans (hs.parent_lt hP) hE
  binding hs _ hb := hs.binding hb
  filed _ _ _ := trivial
  filed_copy _ _ _ _ := trivial
  alloc hs ho := ⟨hs.alloc ho, Extends.alloc _ _, hasValue_alloc_self⟩
  newFrame := fun hs ⟨D, hD⟩ hparent hbindings =>
    ⟨hs.newFrame hparent hbindings (hD ▸ hs.names D), Extends.newFrame _ _, hasFrame_newFrame_self,
      fun h => ⟨hasFrame_newFrame_self, parent?_newFrame_self.trans h⟩⟩
  set x hs _ hv := ⟨hs.set x hv, Extends.set _ _ _ _⟩
  erase c hs _ hh := ⟨hs.erase hh c, Extends.write _ _ _⟩
  print _ hs := ⟨hs.withLogs _ _, id, id, fun _ => rfl⟩
  request _ hs := ⟨hs.withLogs _ _, id, id, fun _ => rfl⟩

theorem wellFormed_steps (keys : List Value) (stop : Expr → FrameId → Store → Bool) : wellFormed.Steps keys stop :=
  steps_of_write fun _ m (hs : Store.WellFormed _) _ _ hn _ => ⟨hs.writeInteger hn m, Extends.write _ _ _⟩

end Invariant

namespace Store

variable {s : Store} {E : FrameId} {u v : Value} {id : ObjectId} {o : Object}

/-! ## Chains -/

/-- No frame is inside itself. -/
theorem WellFormed.wellFounded_parent (hs : s.WellFormed) : WellFounded fun P E => s.parent? E = some P :=
  Subrelation.wf (fun h => hs.parent_lt h) (InvImage.wf FrameId.index Nat.lt_wfRel.wf)

theorem WellFormed.nested (hs : s.WellFormed) : s.Nested := fun _ _ hP => hs.parent_lt hP

/-- More steps do not make a chain longer. -/
theorem WellFormed.chainUpTo_eq (hs : s.WellFormed) {n : Nat} (hn : E.index ≤ n) :
    s.chainUpTo n E = s.chain E := hs.nested.chainUpTo_eq hn

/-- A chain ends at a frame around which there is nothing. -/
theorem WellFormed.parent?_root (hs : s.WellFormed) (E : FrameId) : s.parent? (s.root E) = none :=
  (hs.nested.enclosed_root E).2

/-! ## Texts -/

/-- An array or a hash with one of its parts. -/
def IsPart (s : Store) (u v : Value) : Prop := ∃ o, s.datum v = .object o ∧ u ∈ o.parts

theorem WellFormed.depthBound_lt (hs : s.WellFormed) (h : s.IsPart u v) : depthBound u < depthBound v := by
  obtain ⟨o, ho, hu⟩ := h
  cases v with
  | null | boolean => cases ho
  | ref id =>
    cases u with
    | null | boolean =>
      show 1 < id.index + 2
      omega
    | ref j =>
      have hlt := hs.part_lt ho hu
      show j.index + 2 < id.index + 2
      omega

/-- No value is inside itself. -/
theorem WellFormed.wellFounded_part (hs : s.WellFormed) : WellFounded s.IsPart :=
  Subrelation.wf (fun h => hs.depthBound_lt h) (InvImage.wf depthBound Nat.lt_wfRel.wf)

theorem depthBound_pos (v : Value) : 0 < depthBound v := by
  cases v with
  | null | boolean => exact Nat.one_pos
  | ref id => exact Nat.succ_pos _

/-- How the entries of a hash are written depends on the texts of its parts. -/
theorem map_entry_congr {entries : List HashEntry} {f g : Value → String}
    (h : ∀ u ∈ (Object.hash entries).parts, f u = g u) :
    entries.map (fun e => f e.key ++ ": " ++ f e.value) = entries.map fun e => g e.key ++ ": " ++ g e.value := by
  refine List.map_congr_left fun e he => ?_
  rw [h _ (Object.key_mem_parts he), h _ (Object.value_mem_parts he)]

/-- The text of a value depends on what it is and on the texts of its parts. -/
theorem displayUpTo_of_parts {t : Store} {m n : Nat} (hdatum : t.datum v = s.datum v)
    (hparts : ∀ u, s.IsPart u v → t.displayUpTo m u = s.displayUpTo n u) :
    t.displayUpTo (m + 1) v = s.displayUpTo (n + 1) v := by
  unfold displayUpTo
  rw [hdatum]
  cases hd : s.datum v with
  | null | boolean => rfl
  | object o =>
    have hparts (u : Value) (hu : u ∈ o.parts) : t.displayUpTo m u = s.displayUpTo n u := hparts u ⟨o, hd, hu⟩
    cases o with
    | array elements =>
      have hmap : elements.map (t.displayUpTo m) = elements.map (s.displayUpTo n) := List.map_congr_left hparts
      dsimp only
      rw [hmap]
    | hash entries =>
      dsimp only
      rw [map_entry_congr hparts]
    | _ => rfl

/-- Texts are the same for all bounds that are large enough. -/
theorem WellFormed.displayUpTo_congr (hs : s.WellFormed) {m n : Nat} (hm : depthBound v ≤ m) (hn : depthBound v ≤ n) :
    s.displayUpTo m v = s.displayUpTo n v := by
  have hpos := depthBound_pos v
  induction m generalizing n v with
  | zero => omega
  | succ m ih =>
    cases n with
    | zero => omega
    | succ n =>
      refine displayUpTo_of_parts rfl fun u hu => ?_
      have hlt := hs.depthBound_lt hu
      exact ih (by omega) (by omega) (depthBound_pos u)

theorem WellFormed.displayUpTo_eq (hs : s.WellFormed) {n : Nat} (hn : depthBound v ≤ n) :
    s.displayUpTo n v = s.display v := hs.displayUpTo_congr hn (Nat.le_refl _)

theorem WellFormed.displayUpTo_part (hs : s.WellFormed) (hu : s.IsPart u (.ref id)) :
    s.displayUpTo (id.index + 1) u = s.display u :=
  hs.displayUpTo_eq (Nat.le_of_lt_succ (hs.depthBound_lt hu))

/-- The text of an array shows its elements, in order. -/
theorem WellFormed.display_array (hs : s.WellFormed) {elements : List Value}
    (ha : s.datum v = .object (.array elements)) :
    s.display v = "[" ++ Render.commas (elements.map s.display) ++ "]" := by
  cases v with
  | null | boolean => cases ha
  | ref id =>
    have hmap : elements.map (s.displayUpTo (id.index + 1)) = elements.map s.display :=
      List.map_congr_left fun _ hu => hs.displayUpTo_part ⟨_, ha, hu⟩
    show s.displayUpTo (id.index + 1 + 1) (.ref id) = _
    unfold displayUpTo
    rw [ha]
    dsimp only
    rw [hmap]

/-- The text of a hash shows its keys, each with its value, in order. -/
theorem WellFormed.display_hash (hs : s.WellFormed) {entries : List HashEntry}
    (hh : s.datum v = .object (.hash entries)) :
    s.display v =
      Render.braces (Render.commas (entries.map fun e => s.display e.key ++ ": " ++ s.display e.value)) := by
  cases v with
  | null | boolean => cases hh
  | ref id =>
    have hpart (u : Value) (hu : u ∈ (Object.hash entries).parts) : s.displayUpTo (id.index + 1) u = s.display u :=
      hs.displayUpTo_part ⟨_, hh, hu⟩
    show s.displayUpTo (id.index + 1 + 1) (.ref id) = _
    unfold displayUpTo
    rw [hh]
    dsimp only
    rw [map_entry_congr hpart]

/-! ## Copies -/

namespace WellFormed

theorem copyUpTo (hs : s.WellFormed) (hv : s.HasValue v) (n : Nat) :
    (Store.copyUpTo n v s).2.WellFormed ∧ s.Extends (Store.copyUpTo n v s).2 := by
  have hstores : (Invariant.wellFormed.toSimulation []).stores s s s := ⟨rfl, rfl, hs⟩
  have hvalue : ((Invariant.wellFormed.toSimulation []).matching s).value v v := ⟨rfl, hv⟩
  obtain ⟨t, hlater, ⟨rfl, _, ht⟩, _⟩ := Simulation.Carries.copyUpTo n hvalue hstores
  exact ⟨ht, hlater⟩

/-- Actions that agree on well-formed stores, and keep them so, agree one after the other. -/
theorem mapM_congr {α β : Type} {as : List α} {f g : α → StoreM β} (hs : s.WellFormed)
    (h : ∀ a ∈ as, ∀ t : Store, t.WellFormed → s.Extends t →
      f a t = g a t ∧ (f a t).2.WellFormed ∧ t.Extends (f a t).2) : as.mapM f s = as.mapM g s := by
  have hmapM (t : Store) (ht : t.WellFormed) (hst : s.Extends t) : as.mapM f t = as.mapM g t := by
    induction as generalizing t with
    | nil => rfl
    | cons a as ih =>
      obtain ⟨hfg, hwf, hext⟩ := h a List.mem_cons_self t ht hst
      have hrest := ih (fun b hb => h b (List.mem_cons_of_mem _ hb)) (f a t).2 hwf (hst.trans hext)
      rw [List.mapM_cons, List.mapM_cons]
      exact bind_eq hfg (bind_eq hrest rfl)
  exact hmapM s hs (Extends.refl s)

/-- Copies are the same for all bounds that are large enough. -/
theorem copyUpTo_congr (hs : s.WellFormed) {m n : Nat} (hm : depthBound v ≤ m) (hn : depthBound v ≤ n) :
    Store.copyUpTo m v s = Store.copyUpTo n v s := by
  have hpos := depthBound_pos v
  induction m generalizing n v s with
  | zero => omega
  | succ m ih =>
    cases n with
    | zero => omega
    | succ n =>
      -- the parts are copied one after the other, in stores that grow
      have hpart {u : Value} (hu : s.IsPart u v) (t : Store) (ht : t.WellFormed) (hst : s.Extends t) :
          Store.copyUpTo m u t = Store.copyUpTo n u t ∧ (Store.copyUpTo m u t).2.WellFormed ∧
            t.Extends (Store.copyUpTo m u t).2 := by
        have hlt := hs.depthBound_lt hu
        obtain ⟨o, ho, hmem⟩ := hu
        exact ⟨ih ht (by omega) (by omega) (depthBound_pos u), ht.copyUpTo (hst.value (hs.hasValue_part ho hmem)) m⟩
      unfold Store.copyUpTo
      have hget : (get : StoreM Store) s = (s, s) := rfl
      refine bind_eq rfl ?_
      rw [hget]
      cases hd : s.datum v with
      | null | boolean => rfl
      | object o =>
        cases o with
        | array elements =>
          exact bind_eq (hs.mapM_congr fun u hu => hpart ⟨_, hd, hu⟩) rfl
        | hash entries =>
          refine bind_eq (hs.mapM_congr fun e he t ht hst => ?_) rfl
          have hkey := hpart ⟨_, hd, Object.key_mem_parts he⟩ t ht hst
          have hvalue := hpart ⟨_, hd, Object.value_mem_parts he⟩ _ hkey.2.1 (hst.trans hkey.2.2)
          exact ⟨bind_eq hkey.1 (bind_eq hvalue.1 rfl), hvalue.2.1, hkey.2.2.trans hvalue.2.2⟩
        | _ => rfl

theorem copyUpTo_eq (hs : s.WellFormed) {n : Nat} (hn : depthBound v ≤ n) :
    Store.copyUpTo n v s = copyValue v s := hs.copyUpTo_congr hn (Nat.le_refl _)

end WellFormed

/-- Copies the bindings of a frame, with one bound for all. -/
def copyFrameUpTo (n : Nat) (T : FrameId) : StoreM FrameId := do
  let copies ← ((← get).bindings T).mapM fun (x, v) => do return (x, ← copyUpTo n v)
  modifyGet (·.newFrame ⟨none, copies⟩)

/-- There is a bound that is large enough for all bindings of a frame. -/
theorem WellFormed.copyFrameUpTo_eq (hs : s.WellFormed) (T : FrameId) :
    ∃ N, ∀ n, N ≤ n → copyFrameUpTo n T s = copyFrame T s := by
  obtain ⟨N, hN⟩ : ∃ N, ∀ b ∈ s.bindings T, depthBound b.2 ≤ N := by
    induction s.bindings T with
    | nil => exact ⟨0, by simp⟩
    | cons b bs ih =>
      obtain ⟨N, hN⟩ := ih
      refine ⟨max (depthBound b.2) N, List.forall_mem_cons.2 ⟨Nat.le_max_left _ _, fun c hc => ?_⟩⟩
      exact Nat.le_trans (hN c hc) (Nat.le_max_right _ _)
  refine ⟨N, fun n hn => bind_eq rfl (bind_eq (hs.mapM_congr fun b hb t ht hst => ?_) rfl)⟩
  have hbound := Nat.le_trans (hN b hb) hn
  exact ⟨bind_eq (ht.copyUpTo_eq hbound) rfl, ht.copyUpTo (hst.value (hs.binding hb)) n⟩

/-! ## Reachable states -/

/-- What goes from frame to frame or from value to value comes to an end: there are no infinite descents, and no bound
is met on the way. -/
structure Terminates (s : Store) : Prop where
  parents : WellFounded fun P E => s.parent? E = some P
  parts : WellFounded s.IsPart
  chain {E : FrameId} {n : Nat} : E.index ≤ n → s.chainUpTo n E = s.chain E
  root (E : FrameId) : s.parent? (s.root E) = none
  display {v : Value} {n : Nat} : depthBound v ≤ n → s.displayUpTo n v = s.display v
  copyValue {v : Value} {n : Nat} : depthBound v ≤ n → copyUpTo n v s = Store.copyValue v s
  copyFrame (T : FrameId) : ∃ N, ∀ n, N ≤ n → copyFrameUpTo n T s = Store.copyFrame T s

theorem WellFormed.terminates (hs : s.WellFormed) : s.Terminates :=
  ⟨hs.wellFounded_parent, hs.wellFounded_part, hs.chainUpTo_eq, hs.parent?_root, hs.displayUpTo_eq, hs.copyUpTo_eq,
    hs.copyFrameUpTo_eq⟩

theorem wellFormed_start : Session.start.store.WellFormed where
  parent_lt {E P} h := by
    obtain ⟨_ | n⟩ := E
    · cases h
    · simp [parent?, Session.start, newRoot, newFrame, empty] at h
  part_lt h := by cases hasValue_of_datum h
  root {v className E} h := by
    cases v with
    | null | boolean => cases h
    | ref id => cases hasValue_of_datum h
  frame {v o E} h := by
    cases v with
    | null | boolean => cases h
    | ref id => cases hasValue_of_datum h
  binding {E b} h := by
    obtain ⟨_ | n⟩ := E
    · cases h
    · simp [bindings, Session.start, newRoot, newFrame, empty] at h
  names E := by
    obtain ⟨_ | n⟩ := E
    · exact List.nodup_nil
    · simp [bindings, Bindings.names, Session.start, newRoot, newFrame, empty]
  sorted {v entries} h := by
    cases v with
    | null | boolean => cases h
    | ref id => cases hasValue_of_datum h

end Store

/-- Every state that is reached, also in the middle of a program and after an error, is well formed. -/
theorem ReachableAvoiding.wellFormed {avoid : List Value → Expr → FrameId → Store → Bool} {s : Store}
    (h : ReachableAvoiding avoid s) : s.WellFormed :=
  (Invariant.reachable (fun keys => Invariant.wellFormed_steps keys _) Store.wellFormed_start Nat.one_pos h).1

/-- The frame of the programs of a session stays a root. -/
theorem ReachableAvoiding.root {avoid : List Value → Expr → FrameId → Store → Bool} {s : Store}
    (h : ReachableAvoiding avoid s) : s.HasFrame Session.start.frame ∧ s.parent? Session.start.frame = none := by
  have hframe : Session.start.store.HasFrame Session.start.frame := Nat.one_pos
  have hextends : Session.start.store.Extends s :=
    (Invariant.reachable (fun keys => Invariant.wellFormed_steps keys _) Store.wellFormed_start hframe h).2
  exact ⟨hextends.frame hframe, hextends.parent hframe⟩

/-- **Reachable states are well formed.** Frames, arrays and hashes are younger than what they refer to by these ways,
and the frames of classes and instances are roots; so lookups, texts and copies end everywhere. -/
theorem Reachable.wellFormed_terminates {s : Store} (h : Reachable s) : s.WellFormed ∧ s.Terminates :=
  ⟨h.wellFormed, h.wellFormed.terminates⟩

/-- The store after `func f() { f } 1 / 0;`, in which the frame of the program and the function refer to each other. -/
def circular : Store :=
  (Outcome.of (Eval.program (Eval.expr (Library.ofUnits []) 3)
    [.function ⟨"f", ⟨[], [.expr (.name "f")]⟩, false⟩, .expr (.binary .div (.integer 1) (.integer 0))]
    Session.start.frame) Session.start.store).2

theorem circular_terminates :
    circular.get? ⟨0⟩ "f" = some (.ref ⟨0⟩) ∧
      circular.datum (.ref ⟨0⟩) = .object (.function ⟨⟨[], [.expr (.name "f")]⟩, ⟨0⟩, false⟩) ∧
      Reachable circular ∧ circular.WellFormed ∧ circular.Terminates := by
  have hreach : Reachable circular := Reachable.program .start _ _ _
  exact ⟨by decide +kernel, rfl, hreach, Reachable.wellFormed_terminates hreach⟩

end Pron
