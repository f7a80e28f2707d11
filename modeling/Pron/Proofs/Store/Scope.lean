import Pron.Proofs.Store.Operations

/-!
# Names in scopes

A frame is put inside a frame that is there and stays inside it, so the frames of a store form trees (`Store.Nested`).
There the ways from a frame outward are what one step outward leaves to the frame around (`Nested.get?_eq` and the
like), and a name is looked up and changed in one and the same frame, the nearest one that binds it (`Store.Resolves`,
`Nested.binder?_eq_some`).

When one frame gets a new value for a name that it binds (`Store.Rebound`), no frame binds more names than before, every
name is still bound in the frame where it was, and the new value is seen exactly from where the name was bound there.
-/

namespace Pron

namespace Store

variable {s t : Store} {E F G P : FrameId} {x y : String} {v w : Value}

/-! ## Frames inside frames -/

/-- The frame around a frame is older. -/
def Nested (s : Store) : Prop := ∀ ⦃E P : FrameId⦄, s.parent? E = some P → P.index < E.index

/-- `s.Enclosed E F` says that `E` is `F` or lies inside of it. -/
inductive Enclosed (s : Store) : FrameId → FrameId → Prop
  | self (E : FrameId) : Enclosed s E E
  | around {E P F : FrameId} : s.parent? E = some P → Enclosed s P F → Enclosed s E F

theorem nested_empty : empty.Nested := fun _ _ hP => by cases hP

/-- A new frame is put inside one that is there, or inside none. -/
theorem Nested.newFrame {f : Frame} (hs : s.Nested) (hparent : ∀ P, f.parent = some P → s.HasFrame P) :
    (s.newFrame f).2.Nested := by
  intro E P hP
  rcases hasFrame_newFrame_cases (hasFrame_of_parent hP) with rfl | hE
  · rw [parent?_newFrame_self] at hP
    exact hparent P hP
  · rw [parent?_newFrame hE] at hP
    exact hs hP

/-- More steps do not make a chain longer. -/
theorem Nested.chainUpTo_eq (hs : s.Nested) {n : Nat} (hn : E.index ≤ n) : s.chainUpTo n E = s.chain E := by
  have hmany (m n : Nat) (E : FrameId) (hm : E.index ≤ m) (hn : E.index ≤ n) :
      s.chainUpTo m E = s.chainUpTo n E := by
    induction m generalizing n E with
    | zero =>
      cases n with
      | zero => rfl
      | succ n =>
        unfold chainUpTo
        cases hP : s.parent? E with
        | none => rfl
        | some P =>
          have hlt := hs hP
          omega
    | succ m ih =>
      cases n with
      | zero =>
        unfold chainUpTo
        cases hP : s.parent? E with
        | none => rfl
        | some P =>
          have hlt := hs hP
          omega
      | succ n =>
        unfold chainUpTo
        cases hP : s.parent? E with
        | none => rfl
        | some P =>
          have hlt := hs hP
          exact congrArg (E :: ·) (ih n P (by omega) (by omega))
  exact hmany n E.index E hn (Nat.le_refl _)

theorem chain_of_root (hE : s.parent? E = none) : s.chain E = [E] := chainUpTo_of_root hE E.index

/-- The frames around a frame are the frame and those around its parent. -/
theorem Nested.chain_of_parent (hs : s.Nested) (hP : s.parent? E = some P) : s.chain E = E :: s.chain P := by
  have hlt := hs hP
  obtain ⟨n, hn⟩ : ∃ n, E.index = n + 1 := ⟨E.index - 1, by omega⟩
  rw [chain, hn, chainUpTo, hP]
  have hle : P.index ≤ n := by omega
  exact congrArg (E :: ·) (hs.chainUpTo_eq hle)

/-- What holds of a frame when it holds of the one around it holds of all frames. -/
theorem Nested.induction {motive : FrameId → Prop} (hs : s.Nested) (root : ∀ E, s.parent? E = none → motive E)
    (inner : ∀ E P, s.parent? E = some P → motive P → motive E) (E : FrameId) : motive E := by
  obtain ⟨n, hn⟩ : ∃ n, E.index = n := ⟨_, rfl⟩
  induction n using Nat.strongRecOn generalizing E with
  | ind n ih =>
    cases hP : s.parent? E with
    | none => exact root E hP
    | some P => exact inner E P hP (ih P.index (hn ▸ hs hP) P rfl)

/-! ## The root -/

/-- No chain is empty, so it does not matter what stands for the last frame of an empty one. -/
theorem getLastD_chain (s : Store) (E D : FrameId) : (s.chain E).getLastD D = s.root E := by
  have hcons (n : Nat) : ∃ L, s.chainUpTo n E = E :: L := by
    cases n with
    | zero => exact ⟨[], rfl⟩
    | succ n =>
      unfold chainUpTo
      cases s.parent? E with
      | none => exact ⟨[], rfl⟩
      | some P => exact ⟨_, rfl⟩
  obtain ⟨L, hL⟩ := hcons E.index
  unfold root chain
  rw [hL, List.getLastD_cons, List.getLastD_cons]

/-- The root of a frame is that of its parent. -/
theorem Nested.root_eq (hs : s.Nested) (E : FrameId) :
    s.root E = match s.parent? E with
      | some P => s.root P
      | none => E := by
  cases hP : s.parent? E with
  | none => exact root_of_root hP
  | some P =>
    rw [root, hs.chain_of_parent hP, List.getLastD_cons]
    exact getLastD_chain s P E

/-- The root is around the frame, and nothing is around the root. -/
theorem Nested.enclosed_root (hs : s.Nested) (E : FrameId) :
    s.Enclosed E (s.root E) ∧ s.parent? (s.root E) = none := by
  induction E using hs.induction with
  | root E hE =>
    rw [root_of_root hE]
    exact ⟨.self E, hE⟩
  | inner E P hP ih =>
    rw [hs.root_eq E, hP]
    exact ⟨.around hP ih.1, ih.2⟩

/-- Fields of the receiver are looked up at the root. -/
theorem Nested.rootValue?_eq (hs : s.Nested) (E : FrameId) (x : String) :
    s.rootValue? E x = match s.parent? E with
      | some P => s.rootValue? P x
      | none => s.localValue? E x := by
  unfold rootValue?
  rw [hs.root_eq E]
  cases s.parent? E <;> rfl

/-! ## The nearest frame that binds a name -/

/-- `s.Resolves x E F` says that `F` is the nearest frame that binds `x`, going outward from `E`. -/
inductive Resolves (s : Store) (x : String) : FrameId → FrameId → Prop
  | here {E : FrameId} : (s.localValue? E x).isSome → Resolves s x E E
  | outward {E P F : FrameId} : s.localValue? E x = none → s.parent? E = some P → Resolves s x P F → Resolves s x E F

/-- A name is looked for in a frame and then outward. -/
theorem Nested.binder?_eq (hs : s.Nested) (E : FrameId) (x : String) :
    s.binder? E x = if (s.localValue? E x).isSome then some E else (s.parent? E).bind (s.binder? · x) := by
  have hfind (L : List FrameId) : (E :: L).find? (fun F => (s.localValue? F x).isSome) =
      if (s.localValue? E x).isSome then some E else L.find? fun F => (s.localValue? F x).isSome := by
    rw [List.find?_cons]
    cases (s.localValue? E x).isSome <;> rfl
  unfold binder?
  cases hP : s.parent? E with
  | none => rw [chain_of_root hP, hfind]; rfl
  | some P => rw [hs.chain_of_parent hP, hfind]; rfl

/-- Lookups find the nearest frame. -/
theorem Nested.binder?_eq_some (hs : s.Nested) : s.binder? E x = some F ↔ s.Resolves x E F := by
  constructor
  · intro hF
    induction E using hs.induction with
    | root E hE =>
      rw [hs.binder?_eq, hE] at hF
      split at hF
      · next hx =>
        cases hF
        exact .here hx
      · cases hF
    | inner E P hP ih =>
      rw [hs.binder?_eq, hP] at hF
      split at hF
      · next hx =>
        cases hF
        exact .here hx
      · next hx => exact .outward (Option.not_isSome_iff_eq_none.1 hx) hP (ih hF)
  · intro h
    induction h with
    | here hx => rw [hs.binder?_eq, if_pos hx]
    | outward hx hP _ ih =>
      rw [hs.binder?_eq, hx, hP]
      exact ih

/-- A name resolves to one frame at most. -/
theorem Resolves.unique (hs : s.Nested) (hF : s.Resolves x E F) (hG : s.Resolves x E G) : G = F :=
  Option.some.inj ((hs.binder?_eq_some.2 hG).symm.trans (hs.binder?_eq_some.2 hF))

theorem bound_of_binder? (h : s.binder? E x = some F) : (s.localValue? F x).isSome :=
  List.find?_some (p := fun F => (s.localValue? F x).isSome) h

/-- A name has a value where some frame binds it. -/
theorem isSome_get? : (s.get? E x).isSome ↔ (s.binder? E x).isSome := by
  unfold get?
  cases hF : s.binder? E x with
  | none => rfl
  | some F => exact iff_of_true (bound_of_binder? hF) rfl

theorem Nested.get?_eq (hs : s.Nested) (E : FrameId) (x : String) :
    s.get? E x = (s.localValue? E x).or ((s.parent? E).bind (s.get? · x)) := by
  unfold get?
  rw [hs.binder?_eq]
  cases hx : s.localValue? E x with
  | none => cases s.parent? E <;> rfl
  | some v => simpa using hx

theorem Nested.get?_eq_some (hs : s.Nested) :
    s.get? E x = some v ↔ ∃ F, s.Resolves x E F ∧ s.localValue? F x = some v := by
  unfold get?
  rw [Option.bind_eq_some_iff]
  exact exists_congr fun F => and_congr_left fun _ => hs.binder?_eq_some

/-- An assignment goes to the nearest frame that binds the name. -/
theorem Nested.update?_eq (hs : s.Nested) (E : FrameId) (x : String) (v : Value) :
    s.update? E x v =
      if (s.localValue? E x).isSome then some (s.set E x v) else (s.parent? E).bind (s.update? · x v) := by
  unfold update?
  rw [hs.binder?_eq]
  split
  · rfl
  · cases s.parent? E <;> rfl

/-- An assignment to a field goes to the root. -/
theorem Nested.updateRoot?_eq (hs : s.Nested) (E : FrameId) (x : String) (v : Value) :
    s.updateRoot? E x v = match s.parent? E with
      | some P => s.updateRoot? P x v
      | none => s.update? E x v := by
  unfold updateRoot? rootValue?
  rw [hs.root_eq E]
  cases hP : s.parent? E with
  | none =>
    rw [hs.update?_eq, hP]
    rfl
  | some P => rfl

/-! ## A new value for one name of one frame -/

/-- The second store differs from the first in what one frame binds to one name. -/
structure Rebound (s t : Store) (R : FrameId) (x : String) (v : Value) : Prop where
  bound : t.localValue? R x = some v
  other {F : FrameId} {y : String} : F ≠ R ∨ y ≠ x → t.localValue? F y = s.localValue? F y
  parent (F : FrameId) : t.parent? F = s.parent? F
  objects : t.objects = s.objects
  printed : t.printed = s.printed
  requests : t.requests = s.requests

/-- Another frame or another name is bound as before. -/
theorem localValue?_set_of_ne (h : E ≠ F ∨ y ≠ x) : (s.set F x v).localValue? E y = s.localValue? E y := by
  rw [localValue?_eq, localValue?_eq]
  by_cases hE : F = E
  · subst hE
    have hy : y ≠ x := h.resolve_left fun hne => hne rfl
    by_cases hF : s.HasFrame F
    · rw [bindings_set_self hF, Bindings.lookup_insert_of_ne hy]
    · rw [bindings_of_not_hasFrame hF, bindings_of_not_hasFrame (mt hasFrame_set.1 hF)]
  · rw [bindings_set_of_ne hE]

theorem localValue?_set_self (hE : s.HasFrame E) : (s.set E x v).localValue? E x = some v := by
  rw [localValue?_eq, bindings_set_self hE, Bindings.lookup_insert_self]

theorem hasFrame_of_localValue? (h : s.localValue? E x = some w) : s.HasFrame E := by
  by_contra hE
  rw [localValue?_eq, bindings_of_not_hasFrame hE] at h
  cases h

theorem Rebound.of_set (hE : s.HasFrame E) : s.Rebound (s.set E x v) E x v where
  bound := localValue?_set_self hE
  other := localValue?_set_of_ne
  parent _ := parent?_set
  objects := rfl
  printed := rfl
  requests := rfl

theorem rebound_set (h : (s.localValue? E x).isSome) : s.Rebound (s.set E x v) E x v := by
  obtain ⟨w, hw⟩ := Option.isSome_iff_exists.1 h
  exact .of_set (hasFrame_of_localValue? hw)

theorem chainUpTo_of_parent (h : ∀ F, t.parent? F = s.parent? F) (n : Nat) (E : FrameId) :
    t.chainUpTo n E = s.chainUpTo n E := by
  induction n generalizing E with
  | zero => rfl
  | succ n ih =>
    unfold chainUpTo
    rw [h E]
    cases s.parent? E with
    | none => rfl
    | some P => exact congrArg (E :: ·) (ih P)

namespace Rebound

/-- Other names are what they were, from everywhere. -/
theorem get?_of_ne (h : s.Rebound t F x v) (hy : y ≠ x) (G : FrameId) : t.get? G y = s.get? G y := by
  have hlocal : (t.localValue? · y) = (s.localValue? · y) := funext fun _ => h.other (.inr hy)
  have hbinder : t.binder? G y = s.binder? G y := by
    unfold binder? chain
    rw [chainUpTo_of_parent h.parent]
    exact congrArg (fun f : FrameId → Option Value => List.find? (fun D => (f D).isSome) _) hlocal
  unfold get?
  rw [hbinder, hlocal]

variable (hbound : (s.localValue? F x).isSome)

include hbound

/-- A name that was bound already is not added. -/
theorem isSome_localValue? (h : s.Rebound t F x v) (G : FrameId) (y : String) :
    (t.localValue? G y).isSome = (s.localValue? G y).isSome := by
  by_cases hG : G ≠ F ∨ y ≠ x
  · rw [h.other hG]
  · obtain ⟨rfl, rfl⟩ : G = F ∧ y = x := by simpa using hG
    rw [h.bound, hbound]
    rfl

theorem binder?_eq (h : s.Rebound t F x v) (G : FrameId) (y : String) : t.binder? G y = s.binder? G y := by
  unfold binder? chain
  rw [chainUpTo_of_parent h.parent]
  exact congrArg (List.find? · _) (funext fun D => h.isSome_localValue? hbound D y)

/-- The new value is seen from where the name is bound in the frame. -/
theorem get?_of_binder? (h : s.Rebound t F x v) (hG : s.binder? G x = some F) : t.get? G x = some v := by
  unfold get?
  rw [h.binder?_eq hbound, hG]
  exact h.bound

theorem get?_of_binder?_ne (h : s.Rebound t F x v) (hG : s.binder? G x ≠ some F) : t.get? G x = s.get? G x := by
  unfold get?
  rw [h.binder?_eq hbound]
  cases hD : s.binder? G x with
  | none => rfl
  | some D => exact h.other (.inl fun hDF => hG (hDF ▸ hD))

end Rebound

/-! ## Binding a name to what it is bound to -/

theorem insert_of_lookup {bs : Bindings} (h : bs.lookup x = some v) : Bindings.insert x v bs = bs := by
  induction bs with
  | nil => cases h
  | cons b rest ih =>
    obtain ⟨y, w⟩ := b
    unfold Bindings.insert
    split
    · next hxy =>
      subst hxy
      rw [List.lookup_cons_self] at h
      cases h
      rfl
    · next hxy =>
      rw [List.lookup_cons, beq_eq_false_iff_ne.2 hxy] at h
      exact congrArg ((y, w) :: ·) (ih h)

/-- To bind a name to what it is bound to changes nothing. -/
theorem set_of_localValue? (h : s.localValue? E x = some v) : s.set E x v = s := by
  have hframes : (s.set E x v).frames = s.frames := by
    refine Array.ext_getElem? fun i => ?_
    show (s.frames.modify E.index (·.bind x v))[i]? = s.frames[i]?
    rw [Array.getElem?_modify]
    split
    · next hi =>
      obtain ⟨f, hf, hfx⟩ := Option.bind_eq_some_iff.1 h
      rw [← hi, hf]
      exact congrArg (fun bs => some (Frame.mk f.parent bs)) (insert_of_lookup hfx)
    · rfl
  exact congrArg (fun fs => { s with frames := fs }) hframes

end Store

end Pron
