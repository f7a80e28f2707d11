import Pron.Proofs.Privacy.World

/-!
# Twins

Two actions are twins when they end alike on all stores of a world: with the same result, or with stops of the same kind
(`Secret.Twin`). Everything that actions are built from makes twins out of twins.
-/

namespace Pron

namespace Secret

variable (S : Secret) (w : World)

/-- Stops for the same reason. -/
inductive AlikeStop : Stop → Stop → Prop
  | returned {v : Value} : w.Value v → AlikeStop (.returned v) (.returned v)
  | failed {e e' : RuntimeError} : S.AlikeError e e' → AlikeStop (.failed e) (.failed e')
  | tooDeep : AlikeStop .tooDeep .tooDeep

variable {α β γ : Type}

/-- Results of the two runs: the same, or stops that are alike, with stores of some later world. -/
inductive Agree (R : World → α → Prop) : EStateM.Result Stop Store α → EStateM.Result Stop Store α → Prop
  | ok {a : α} {s t : Store} {w' : World} : w.Le w' → S.Stores w' s t → R w' a → Agree R (.ok a s) (.ok a t)
  | error {x y : Stop} {s t : Store} {w' : World} : w.Le w' → S.Stores w' s t → S.AlikeStop w' x y →
      Agree R (.error x s) (.error y t)

/-- Actions that end alike on all stores of the world. -/
def Twin (R : World → α → Prop) (x y : Eval α) : Prop := ∀ ⦃s t⦄, S.Stores w s t → S.Agree w R (x s) (y t)

/-- No condition on the result. -/
def done (_ : World) (_ : Unit) : Prop := True

variable {S w} {w' : World} {R : World → α → Prop} {Q : World → β → Prop} {s t : Store} {side : Side} {E : FrameId}
  {x : String} {v : Value}

theorem Agree.mono (h : w.Le w') {a b : EStateM.Result Stop Store α} (hab : S.Agree w' R a b) : S.Agree w R a b := by
  cases hab with
  | ok hle hs hR => exact .ok (h.trans hle) hs hR
  | error hle hs hstop => exact .error (h.trans hle) hs hstop

namespace Twin

theorem pure {a : α} (h : R w a) : S.Twin w R (Pure.pure a) (Pure.pure a) := fun _ _ hs => .ok (.refl w) hs h

theorem throw {x y : Stop} (h : S.AlikeStop w x y) :
    S.Twin w R (MonadExcept.throw x : Eval α) (MonadExcept.throw y) := fun _ _ hs => .error (.refl w) hs h

theorem failAlike {e e' : RuntimeError} (h : S.AlikeError e e') : S.Twin w R (Eval.fail e : Eval α) (Eval.fail e') :=
  throw (.failed h)

theorem fail (e : RuntimeError) : S.Twin w R (Eval.fail e : Eval α) (Eval.fail e) := failAlike (.same e)

/-- Nothing comes after an error. -/
theorem fail_bind (e : RuntimeError) {f g : α → Eval β} :
    S.Twin w Q (Eval.fail e >>= f) (Eval.fail e >>= g) := fun _ _ hs => .error (.refl w) hs (.failed (.same e))

theorem bind {x y : Eval α} {f g : α → Eval β} (hx : S.Twin w R x y)
    (hf : ∀ w' a, w.Le w' → R w' a → S.Twin w' Q (f a) (g a)) : S.Twin w Q (x >>= f) (y >>= g) := by
  intro s t hs
  have h := hx hs
  show S.Agree w Q (EStateM.bind x f s) (EStateM.bind y g t)
  unfold EStateM.bind
  generalize x s = a at h
  generalize y t = b at h
  cases h with
  | ok hle hs' hR => exact (hf _ _ hle hR hs').mono hle
  | error hle hs' hstop => exact .error hle hs' hstop

/-- More is known of the result than is asked. -/
theorem imp {R' : World → α → Prop} {x y : Eval α} (h : S.Twin w R x y) (hR : ∀ w' a, R w' a → R' w' a) :
    S.Twin w R' x y := by
  intro s t hs
  have h := h hs
  generalize x s = a at h
  generalize y t = b at h
  cases h with
  | ok hle hs' ha => exact .ok hle hs' (hR _ _ ha)
  | error hle hs' hstop => exact .error hle hs' hstop

/-- The actions may depend on the stores they are run on. -/
theorem read {f g : Store → Eval α} (h : ∀ s t, S.Stores w s t → S.Agree w R (f s s) (g t t)) :
    S.Twin w R (get >>= f) (get >>= g) := fun s t hs => h s t hs

/-- The actions may depend on what a value is. -/
theorem datum {f g : Datum → Eval α} (hv : w.Value v)
    (h : ∀ d d', S.AlikeDatum w d d' → S.Twin w R (f d) (g d')) :
    S.Twin w R (Eval.datum v >>= f) (Eval.datum v >>= g) := fun _ _ hs => h _ _ (hs.datum hv) hs

theorem change {f g : Store → Store} (h : ∀ s t, S.Stores w s t → S.Stores w (f s) (g t)) :
    S.Twin w done (modify f : Eval Unit) (modify g) := fun _ _ hs => .ok (.refl w) (h _ _ hs) trivial

/-- One action after the other for the elements of two lists. -/
theorem forM {as bs : List α} {r : α → α → Prop} (h : List.Forall₂ r as bs) {f g : α → Eval Unit}
    (hf : ∀ w' a b, w.Le w' → a ∈ as → r a b → S.Twin w' done (f a) (g b)) :
    S.Twin w done (as.forM f) (bs.forM g) := by
  induction h generalizing w with
  | nil => exact pure trivial
  | @cons a b as bs hab _ ih =>
    show S.Twin w done (f a >>= fun _ => as.forM f) (g b >>= fun _ => bs.forM g)
    refine (hf w _ _ (.refl w) List.mem_cons_self hab).bind fun w₁ _ h₁ _ => ih fun w' a b hw ha => ?_
    exact hf w' a b (h₁.trans hw) (List.mem_cons_of_mem _ ha)

/-- One result after the other for the elements of a list. -/
theorem mapM {as : List α} {f g : α → Eval β} (hQ : ∀ w w' b, w.Le w' → Q w b → Q w' b)
    (hf : ∀ w' a, w.Le w' → a ∈ as → S.Twin w' Q (f a) (g a)) :
    S.Twin w (fun w' bs => ∀ b ∈ bs, Q w' b) (as.mapM f) (as.mapM g) := by
  induction as generalizing w with
  | nil => exact pure nofun
  | cons a as ih =>
    rw [List.mapM_cons, List.mapM_cons]
    refine (hf w a (.refl w) List.mem_cons_self).bind fun w₁ b h₁ hb => ?_
    refine (ih fun w' a hw ha => hf w' a (h₁.trans hw) (List.mem_cons_of_mem _ ha)).bind fun w₂ bs h₂ hbs => ?_
    exact pure (List.forall_mem_cons.2 ⟨hQ _ _ _ h₂ hb, hbs⟩)

/-! ## Actions on the store -/

/-- A new object with the roles that it fits. -/
theorem allocWith {roles : Role → Prop} {o o' : Object} (h : ∀ role, roles role → S.Fits w role o o') :
    S.Twin w (fun w' v => ∀ role, roles role → w'.Refers role v) (Eval.alloc o) (Eval.alloc o') := by
  intro s t hs
  obtain ⟨href, w', hw, hs', hroles⟩ := hs.alloc h
  show S.Agree w _ (.ok (s.alloc o).1 _) (.ok (t.alloc o').1 _)
  rw [href]
  exact .ok hw hs' hroles

/-- A new object that evaluations can get to. -/
theorem alloc {o o' : Object} (h : S.AlikeObject w o o') : S.Twin w World.Value (Eval.alloc o) (Eval.alloc o') := by
  have hfits (role : Role) (hrole : role = .visible) : S.Fits w role o o' := by
    rw [hrole]
    exact .visible h
  exact (allocWith hfits).imp fun _ _ hv => (hv .visible rfl).value

/-- The private method. -/
theorem allocHidden (f f' : FunctionLit) (E : FrameId) : S.Twin w (fun w' v => w'.Refers .hidden v)
    (Eval.alloc (.function ⟨f, E, false⟩)) (Eval.alloc (.function ⟨f', E, false⟩)) := by
  have hfits (role : Role) (hrole : role = .hidden) :
      S.Fits w role (.function ⟨f, E, false⟩) (.function ⟨f', E, false⟩) := by
    rw [hrole]
    exact .hidden f f' E
  exact (allocWith hfits).imp fun _ _ hv => hv .hidden rfl

theorem give {d d' : Datum} (h : S.AlikeDatum w d d') : S.Twin w World.Value (Eval.give d) (Eval.give d') := by
  cases h with
  | null => exact pure trivial
  | boolean b => exact pure trivial
  | object h => exact alloc h

theorem bindName (hE : w.frame side E) (h : S.Binding w side (x, v)) :
    S.Twin w done (Eval.bind E x v) (Eval.bind E x v) := change fun _ _ hs => hs.set hE h

theorem newFrame (f : Frame) (hparent : ∀ P, f.parent = some P → w.frame side P)
    (hbindings : ∀ b ∈ f.bindings, S.Binding w side b) :
    S.Twin w (fun w' F => w'.frame side F) (modifyGet (·.newFrame f) : Eval FrameId) (modifyGet (·.newFrame f)) := by
  intro s t hs
  obtain ⟨href, w', hw, hs', hF⟩ := hs.newFrame hparent hbindings
  show S.Agree w _ (.ok (s.newFrame f).1 _) (.ok (t.newFrame f).1 _)
  rw [href]
  exact .ok hw hs' hF

/-- A class frame can be on either side. -/
theorem newRoot (side : Side) : S.Twin w (fun w' F => w'.frame side F) (modifyGet Store.newRoot : Eval FrameId)
    (modifyGet Store.newRoot) := newFrame ⟨none, []⟩ nofun nofun

theorem newChild (hE : w.frame side E) : S.Twin w (fun w' F => w'.frame side F)
    (modifyGet (·.newChild E) : Eval FrameId) (modifyGet (·.newChild E)) :=
  newFrame ⟨some E, []⟩ (fun _ hP => Option.some.inj hP ▸ hE) nofun

theorem catchReturn {x y : Eval Value} (h : S.Twin w World.Value x y) :
    S.Twin w World.Value (Eval.catchReturn x) (Eval.catchReturn y) := by
  intro s t hs
  have h := h hs
  unfold Eval.catchReturn
  generalize x s = a at h
  generalize y t = b at h
  cases h with
  | ok hle hs' hv => exact .ok hle hs' hv
  | error hle hs' hstop =>
    cases hstop with
    | returned hv => exact .ok hle hs' hv
    | failed he => exact .error hle hs' (.failed he)
    | tooDeep => exact .error hle hs' .tooDeep

end Twin

end Secret

end Pron
