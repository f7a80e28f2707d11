import Pron.Proofs.Simulation

/-!
# Instances under a simulation

Copies of corresponding values are corresponding values (`Simulation.Carries.copyValue`), so the frames of the instances
of corresponding classes correspond (`Simulation.Follows.instanceFrame`).
-/

namespace Pron

namespace Simulation

variable {S : Simulation} {w w' : S.World} {s t : Store} {E F : FrameId} {u v : Value} {α β γ δ : Type}

/-- Results, with stores, that correspond in some later world with the same keys. -/
def Meet (w : S.World) (R : S.World → α → β → Prop) (p : α × Store) (q : β × Store) : Prop :=
  ∃ w', S.Quiet w w' ∧ S.stores w' p.2 q.2 ∧ R w' p.1 q.1

/-- Actions on the store that take stores that correspond to such stores again, with results that correspond. -/
def Carries (w : S.World) (R : S.World → α → β → Prop) (x : StoreM α) (y : StoreM β) : Prop :=
  ∀ ⦃s t⦄, S.stores w s t → Meet w R (x s) (y t)

namespace Carries

variable {R : S.World → α → β → Prop} {Q : S.World → γ → δ → Prop}

theorem pure {a : α} {b : β} (h : R w a b) : Carries w R (Pure.pure a) (Pure.pure b) :=
  fun _ _ hs => ⟨w, S.quiet_refl w, hs, h⟩

/-- Actions on the stores one after the other. -/
theorem bind {x : StoreM α} {y : StoreM β} {f : α → StoreM γ} {g : β → StoreM δ} (hx : Carries w R x y)
    (hf : ∀ w' a b, S.Quiet w w' → R w' a b → Carries w' Q (f a) (g b)) : Carries w Q (x >>= f) (y >>= g) := by
  intro s t hs
  obtain ⟨w₁, h₁, hs₁, hR⟩ := hx hs
  obtain ⟨w₂, h₂, hs₂, hQ⟩ := hf w₁ _ _ h₁ hR hs₁
  exact ⟨w₂, S.quiet_trans h₁ h₂, hs₂, hQ⟩

/-- The actions may depend on the stores they are run on. -/
theorem read {f : Store → StoreM γ} {g : Store → StoreM δ}
    (h : ∀ s t, S.stores w s t → Meet w Q (f s s) (g t t)) : Carries w Q (get >>= f) (get >>= g) :=
  fun s t hs => h s t hs

/-- One result after the other for the elements of two lists. -/
theorem mapM {as : List α} {bs : List β} {r : S.World → α → β → Prop} (h : List.Forall₂ (r w) as bs)
    (hr : ∀ {w w' a b}, S.Quiet w w' → r w a b → r w' a b) (hQ : ∀ {w w' a b}, S.Quiet w w' → Q w a b → Q w' a b)
    {f : α → StoreM γ} {g : β → StoreM δ} (hf : ∀ w' a b, S.Quiet w w' → r w' a b → Carries w' Q (f a) (g b)) :
    Carries w (fun w => List.Forall₂ (Q w)) (as.mapM f) (bs.mapM g) := by
  induction as generalizing w bs with
  | nil =>
    cases h
    exact pure .nil
  | cons a as ih =>
    obtain ⟨b, bs, hab, hrest, rfl⟩ := List.forall₂_cons_left_iff.1 h
    rw [List.mapM_cons, List.mapM_cons]
    refine (hf w a b (S.quiet_refl w) hab).bind fun w₁ c d h₁ hcd => ?_
    have hlater := ih (hrest.imp fun _ _ => hr h₁) fun w' a b hw => hf w' a b (S.quiet_trans h₁ hw)
    refine hlater.bind fun w₂ cs ds h₂ h => ?_
    exact pure (.cons (hQ h₂ hcd) h)

/-- Lists that correspond are gone through on both sides. -/
theorem forM {as : List α} {bs : List β} {r : α → β → Prop} (h : List.Forall₂ r as bs) {f : α → StoreM Unit}
    {g : β → StoreM Unit} (hf : ∀ w' a b, S.Quiet w w' → r a b → Carries w' done (f a) (g b)) :
    Carries w done (as.forM f) (bs.forM g) := by
  induction h generalizing w with
  | nil => exact pure trivial
  | @cons a b as bs hab _ ih =>
    show Carries w done (f a >>= fun _ => as.forM f) (g b >>= fun _ => bs.forM g)
    refine (hf w _ _ (S.quiet_refl w) hab).bind fun w₁ _ _ h₁ _ => ih fun w' a b hw => ?_
    exact hf w' a b (S.quiet_trans h₁ hw)

/-- Objects that correspond are made on both sides. -/
theorem allocM {o p : Object} (h : (S.matching w).Object o p) :
    Carries w values (Store.allocM o) (Store.allocM p) := fun _ _ hs => S.alloc hs h

/-! ## Copies of values -/

/-- The content of a key is kept, the key and the value are copied. -/
theorem copyEntry {n : Nat} (ih : ∀ {w : S.World} {u v : Value}, (S.matching w).value u v →
      Carries w values (Store.copyUpTo n u) (Store.copyUpTo n v)) {d e : HashEntry} (h : (S.matching w).Entry d e) :
    Carries w (fun w => (S.matching w).Entry)
      (do return { d with key := ← Store.copyUpTo n d.key, value := ← Store.copyUpTo n d.value })
      (do return { e with key := ← Store.copyUpTo n e.key, value := ← Store.copyUpTo n e.value }) := by
  intro s t hs
  obtain ⟨w₁, h₁, hs₁, hkey⟩ := ih h.key hs
  -- the copy of a key is filed as the key is
  have hfiled := S.filed_copy hs h.filed h₁ hs₁
  obtain ⟨w₂, h₂, hs₂, hvalue⟩ := ih ((quiet_mono h₁).value h.value) hs₁
  have hM := quiet_mono h₂
  exact ⟨w₂, S.quiet_trans h₁ h₂, hs₂, h.content, S.filed_mono h₂ hfiled, hM.value hkey, hvalue⟩

/-- Copies of corresponding values correspond, by induction on the depth. -/
theorem copyUpTo (n : Nat) (h : (S.matching w).value u v) :
    Carries w values (Store.copyUpTo n u) (Store.copyUpTo n v) := by
  induction n generalizing w u v with
  | zero => exact pure h
  | succ n ih =>
    refine read fun s t hs => ?_
    have hd := S.datum hs h
    generalize s.datum u = d at hd
    generalize t.datum v = e at hd
    cases hd with
    | null | boolean => exact pure h hs
    | object ho =>
      cases ho with
      | integer k => exact allocM (.integer k) hs
      | array hvs =>
        exact (mapM (r := fun w => (S.matching w).value) (Q := fun w => (S.matching w).value) hvs
          (fun hw => (quiet_mono hw).value) (fun hw => (quiet_mono hw).value) fun w' a b _ hab => ih hab).bind
          (fun _ _ _ _ h => allocM (.array h)) hs
      | hash hes =>
        obtain ⟨w₁, h₁, hs₁, hcopies⟩ := mapM (r := fun w => (S.matching w).Entry)
          (Q := fun w => (S.matching w).Entry) hes.pairwise (fun hw => entry_mono hw)
          (fun hw => entry_mono hw) (fun w' a b _ hab => copyEntry ih hab) hs
        have hsorted : (S.matching w₁).ordered → Entries.Sorted _ :=
          fun ho => (hes.sorted ((quiet_mono h₁).ordered ho)).of_contents (Store.copyEntries_contents n _ s)
        obtain ⟨w₂, h₂, hs₂, hvalue⟩ := allocM (.hash ⟨hcopies, hsorted⟩) hs₁
        exact ⟨w₂, S.quiet_trans h₁ h₂, hs₂, hvalue⟩
      | _ => exact pure h hs

/-- Copies of corresponding values correspond. -/
theorem copyValue (h : (S.matching w).value u v) :
    Carries w values (Store.copyValue u) (Store.copyValue v) := by
  intro s t hs
  obtain ⟨n, h₁, h₂⟩ := S.copyDepth hs h
  rw [h₁, h₂]
  exact copyUpTo n h hs

/-! ## Copies of frames -/

section Frames

variable {T U I J : FrameId}

/-- The copies of corresponding frames are new owners. -/
theorem copyFrame (h : (S.matching w).frame T U) :
    Carries w (fun w => (S.matching w).owner) (Store.copyFrame T) (Store.copyFrame U) := by
  refine read fun s t hs => ?_
  have hcopy (w' : S.World) (p q : String × Value) (_ : S.Quiet w w') (hpq : (S.matching w').Binding p q) :
      Carries w' (fun w => (S.matching w).Binding) (do return (p.1, ← Store.copyValue p.2))
        (do return (q.1, ← Store.copyValue q.2)) :=
    (copyValue hpq.2).bind fun _ _ _ _ h => pure ⟨hpq.1, h⟩
  obtain ⟨w₁, h₁, hs₁, hcopies⟩ := mapM (r := fun w => (S.matching w).Binding) (Q := fun w => (S.matching w).Binding)
    (S.bindings hs h) (fun hw hpq => ⟨hpq.1, (quiet_mono hw).value hpq.2⟩)
    (fun hw hpq => ⟨hpq.1, (quiet_mono hw).value hpq.2⟩) hcopy hs
  -- the names are still those of the frame
  have hbinds : Store.Binds _ _ := ⟨T, (Store.names_copyBindings (s.bindings T) s).trans
    (congrArg Bindings.names (Store.bindings_congr (Store.frames_copyBindings (s.bindings T) s)).symm)⟩
  obtain ⟨w₂, h₂, hs₂, _, howner⟩ := S.newFrame (f := ⟨none, _⟩) (g := ⟨none, _⟩) hs₁ hbinds .none hcopies
  exact ⟨w₂, S.quiet_trans h₁ h₂, hs₂, howner rfl⟩

/-- Functions of the same text, under the same name. -/
def Method (p q : String × Closure) : Prop :=
  p.1 = q.1 ∧ p.2.literal = q.2.literal ∧ p.2.isPublic = q.2.isPublic

/-- Functions that were made in corresponding frames have the same texts. -/
theorem functionsOf (hs : S.stores w s t) (h : (S.matching w).frame T U) {bs cs : Bindings}
    (hb : List.Forall₂ (S.matching w).Binding bs cs) :
    List.Forall₂ (Method) (s.functionsOf T bs) (t.functionsOf U cs) := by
  unfold Store.functionsOf
  induction hb with
  | nil => exact .nil
  | @cons p q bs cs hpq _ ih =>
    obtain ⟨x, u⟩ := p
    obtain ⟨y, v⟩ := q
    obtain ⟨rfl, huv⟩ := hpq
    rw [List.filterMap_cons, List.filterMap_cons]
    dsimp only
    have hd := S.datum hs huv
    generalize s.datum u = d at hd
    generalize t.datum v = e at hd
    cases hd with
    | null | boolean => exact ih
    | object ho =>
      cases ho with
      | @function literal isPublic G H hG =>
        have hiff := S.frame_eq_iff hs hG h
        dsimp only
        by_cases hT : G = T
        · rw [if_pos hT, if_pos (hiff.1 hT)]
          exact .cons ⟨rfl, rfl, rfl⟩ ih
        · rw [if_neg hT, if_neg (mt hiff.2 hT)]
          exact ih
      | _ => exact ih

/-- A method is made anew in both copies. -/
theorem addMethod (h : (S.matching w).owner I J) {p q : String × Closure} (hpq : Method p q) :
    Carries w done
      (do
        let method ← Store.allocM (.function { p.2 with frame := I })
        modify (·.set I p.1 method))
      (do
        let method ← Store.allocM (.function { q.2 with frame := J })
        modify (·.set J q.1 method)) := by
  obtain ⟨x, ⟨literal, G, isPublic⟩⟩ := p
  obtain ⟨y, ⟨literal', H, isPublic'⟩⟩ := q
  obtain ⟨rfl, rfl, rfl⟩ := hpq
  have hI := S.owner_frame h
  refine (allocM (.function literal isPublic hI)).bind fun w₁ u v h₁ huv s t hs => ?_
  obtain ⟨w₂, h₂, hs₂⟩ := S.set x hs ((quiet_mono h₁).frame hI) huv
  exact ⟨w₂, h₂, hs₂, trivial⟩

/-- The frames of the instances correspond: copies, with the methods made anew. -/
theorem instanceFrame (hT : (S.matching w).frame T U) :
    Carries w (fun w => (S.matching w).owner) (Store.instanceFrame T) (Store.instanceFrame U) := by
  refine (copyFrame hT).bind fun w₁ I J h₁ hI => read fun s t hs => ?_
  have hmethods := functionsOf hs ((quiet_mono h₁).frame hT) (S.bindings hs (S.owner_frame hI))
  refine (forM hmethods fun w₂ p q h₂ hpq => ?_).bind (fun w₂ _ _ h₂ _ => pure ((quiet_mono h₂).owner hI)) hs
  exact addMethod ((quiet_mono h₂).owner hI) hpq

end Frames

end Carries

/-- The frames of new instances of corresponding classes. -/
theorem Follows.instanceFrame {T U : FrameId} (h : (S.matching w).owner T U) :
    Follows w (fun w => (S.matching w).owner) (Eval.ofStore (Store.instanceFrame T))
      (Eval.ofStore (Store.instanceFrame U)) :=
  fun _ _ hs =>
    let ⟨w', hw, hs', hI⟩ := Carries.instanceFrame (S.owner_frame h) hs
    ⟨w', S.quiet_le hw, hs', hI⟩

end Simulation

end Pron
