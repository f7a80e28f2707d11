import Pron.Proofs.Privacy.Twin

/-!
# Instances in two runs

New instances of a class are twins (`Secret.Twin.instanceFrame`): the frames of both are on the side of the frame of the
class. The private method is copied like every function of the class, and stays bound to its name.
-/

namespace Pron

/-- Functions, constructors and instances are not copied. -/
theorem Store.copyUpTo_of_frame {s : Store} {v : Value} {o : Object} (hv : s.datum v = .object o)
    (ho : o.frame?.isSome) (n : Nat) : copyUpTo n v s = (v, s) := by
  cases n with
  | zero => rfl
  | succ n =>
    unfold copyUpTo
    rw [read_bind, hv]
    cases o with
    | function | inst | init => rfl
    | _ => cases ho

namespace Secret

variable {S : Secret} {w w' : World} {s t : Store} {side : Side} {T I : FrameId} {x : String} {v : Value}

open Eval (ofStore)

namespace Twin

/-! ## Copies of values -/

theorem copyUpTo (n : Nat) (hv : w.Value v) :
    S.Twin w World.Value (ofStore (Store.copyUpTo n v)) (ofStore (Store.copyUpTo n v)) := by
  induction n generalizing w v with
  | zero => exact pure hv
  | succ n ih =>
    unfold Store.copyUpTo
    rw [Eval.ofStore_read]
    refine read fun s t hs => ?_
    have hd := hs.datum hv
    generalize s.datum v = d at hd
    generalize t.datum v = d' at hd
    cases hd with
    | null | boolean => exact pure hv hs
    | @object o o' ho =>
      cases ho with
      | data hframe hparts =>
        cases o with
        | integer k => exact alloc (.scalar rfl rfl) hs
        | array elements =>
          dsimp only
          rw [Eval.ofStore_bind, Eval.ofStore_mapM]
          refine (mapM (Q := World.Value) (fun _ _ _ hw => hw.value) fun w' u hw hu => ih (hw.value (hparts u hu))).bind
            (fun w' copies hw hcopies => ?_) hs
          exact alloc (.data rfl hcopies)
        | hash entries =>
          dsimp only
          rw [Eval.ofStore_bind, Eval.ofStore_mapM]
          refine (mapM (Q := fun (w : World) (e : HashEntry) => w.Value e.key ∧ w.Value e.value)
            (fun _ _ _ hw he => ⟨hw.value he.1, hw.value he.2⟩) fun w' e hw he => ?_).bind
            (fun w' copies hw hcopies => alloc (.hash hcopies)) hs
          rw [Eval.ofStore_bind]
          refine (ih (hw.value (hparts e.key (Object.key_mem_parts he)))).bind fun w₁ key h₁ hkey => ?_
          rw [Eval.ofStore_bind]
          have hpart := hparts e.value (Object.value_mem_parts he)
          refine (ih ((hw.trans h₁).value hpart)).bind fun w₂ value h₂ hvalue => ?_
          exact pure ⟨h₂.value hkey, hvalue⟩
        | function | inst | init => cases hframe
        | _ => exact pure hv hs
      | _ => exact pure hv hs

/-- Functions and constructors are not copied. -/
theorem copyUncopied (hv : w.Refers .hidden v ∨ w.Refers .init v) :
    S.Twin w (fun w' u => w'.Le w' ∧ u = v) (ofStore (Store.copyValue v)) (ofStore (Store.copyValue v)) := by
  intro s t hs
  have hobjects : (∃ o, s.datum v = .object o ∧ o.frame?.isSome) ∧ ∃ o, t.datum v = .object o ∧ o.frame?.isSome := by
    rcases hv with hv | hv
    · obtain ⟨_, _, _, ho, ho'⟩ := hs.hidden hv
      exact ⟨⟨_, ho, rfl⟩, _, ho', rfl⟩
    · obtain ⟨_, _, _, _, ho, ho', _⟩ := hs.init hv
      exact ⟨⟨_, ho, rfl⟩, _, ho', rfl⟩
  obtain ⟨⟨o, ho, hframe⟩, o', ho', hframe'⟩ := hobjects
  have hcopy : ofStore (Store.copyValue v) s = .ok v s := by
    show EStateM.Result.ok (Store.copyValue v s).1 (Store.copyValue v s).2 = _
    rw [Store.copyValue, Store.copyUpTo_of_frame ho hframe]
  have hcopy' : ofStore (Store.copyValue v) t = .ok v t := by
    show EStateM.Result.ok (Store.copyValue v t).1 (Store.copyValue v t).2 = _
    rw [Store.copyValue, Store.copyUpTo_of_frame ho' hframe']
  rw [hcopy, hcopy']
  exact .ok (.refl w) hs ⟨.refl w, rfl⟩

/-- What a frame binds is copied to what a frame on the same side can bind. -/
theorem copyBinding {b : String × Value} (hb : S.Binding w side b) :
    S.Twin w (fun w' => S.Binding w' side) (ofStore (do return (b.1, ← Store.copyValue b.2)))
      (ofStore (do return (b.1, ← Store.copyValue b.2))) := by
  obtain ⟨x, v⟩ := b
  rw [Eval.ofStore_bind]
  have hcopy (hv : w.Value v) := copyUpTo (S := S) (Store.depthBound v) hv
  cases side with
  | outside => exact (hcopy hb).bind fun w' u _ hu => pure hu
  | inside =>
    rcases hb with ⟨hv, hinit⟩ | ⟨rfl, hv⟩
    · by_cases hx : x = Eval.initName
      · refine (copyUncopied (.inr (hinit hx))).bind fun w' u hw hu => ?_
        obtain rfl := hu.2
        exact pure (.inl ⟨hw.value hv, fun _ => hw.refers (hinit hx)⟩)
      · exact (hcopy hv).bind fun w' u _ hu => pure (.inl ⟨hu, fun h => (hx h).elim⟩)
    · refine (copyUncopied (.inl hv)).bind fun w' u hw hu => ?_
      obtain rfl := hu.2
      exact pure (.inr ⟨rfl, hw.refers hv⟩)

/-! ## Copies of frames -/

theorem copyFrame (hT : w.frame side T) :
    S.Twin w (fun w' I => w'.frame side I) (ofStore (Store.copyFrame T)) (ofStore (Store.copyFrame T)) := by
  unfold Store.copyFrame
  rw [Eval.ofStore_read]
  refine read fun s t hs => ?_
  rw [Store.bindings_congr hs.frames, Eval.ofStore_bind, Eval.ofStore_mapM]
  refine (mapM (Q := fun w => S.Binding w side) (fun _ _ _ hw hb => hb.mono hw) fun w' b hw hb => ?_).bind
    (fun w' copies _ hcopies => newFrame ⟨none, copies⟩ nofun hcopies) hs
  exact copyBinding ((hs.binding hT hb).mono hw)

end Twin

/-- Functions that a frame on a side binds to a name. -/
inductive AlikeMethod (S : Secret) (side : Side) : String × Closure → String × Closure → Prop
  | hidden (f f' : FunctionLit) (E : FrameId) : side = .inside →
      AlikeMethod S side (S.method, ⟨f, E, false⟩) (S.method, ⟨f', E, false⟩)
  | other (x : String) (isPublic : Bool) {f f' : FunctionLit} (E : FrameId) : (side = .inside → x ≠ Eval.initName) →
      S.AlikeFunction f f' → S.Permits side f.mentions → AlikeMethod S side (x, ⟨f, E, isPublic⟩) (x, ⟨f', E, isPublic⟩)

/-- A function counts on both sides, if it was made in the frame. -/
theorem functionsOf_function {f f' : FunctionLit} {E : FrameId} {isPublic : Bool}
    (ho : s.datum v = .object (.function ⟨f, E, isPublic⟩)) (ho' : t.datum v = .object (.function ⟨f', E, isPublic⟩))
    (h : E = T → AlikeMethod S side (x, ⟨f, E, isPublic⟩) (x, ⟨f', E, isPublic⟩)) :
    List.Forall₂ (AlikeMethod S side) (s.functionsOf T [(x, v)]) (t.functionsOf T [(x, v)]) := by
  unfold Store.functionsOf
  rw [List.filterMap_cons, List.filterMap_cons]
  dsimp only
  rw [ho, ho']
  dsimp only
  by_cases hE : E = T
  · rw [if_pos hE, if_pos hE]
    exact .cons (h hE) .nil
  · rw [if_neg hE, if_neg hE]
    exact .nil

namespace Stores

variable (hs : S.Stores w s t) (hT : w.frame side T)

include hs hT

theorem functionsOf_binding (hb : S.Binding w side (x, v)) :
    List.Forall₂ (AlikeMethod S side) (s.functionsOf T [(x, v)]) (t.functionsOf T [(x, v)]) := by
  have hvalue (hv : w.Value v) (hinit : side = .inside → x = Eval.initName → w.Refers .init v) :
      List.Forall₂ (AlikeMethod S side) (s.functionsOf T [(x, v)]) (t.functionsOf T [(x, v)]) := by
    have hd := hs.datum hv
    generalize hsv : s.datum v = d at hd
    generalize htv : t.datum v = d' at hd
    cases hd with
    | null | boolean => simp [Store.functionsOf, hsv, htv]
    | @object o o' ho =>
      cases ho with
      | data hframe =>
        cases o with
        | function | inst | init => cases hframe
        | _ => simp [Store.functionsOf, hsv, htv]
      | @function isPublic f f' side' E hf hE hmentions =>
        refine functionsOf_function hsv htv fun h => ?_
        obtain rfl := hs.side_eq hT (h ▸ hE)
        refine .other x isPublic E (fun hside hx => ?_) hf hmentions
        -- the name for constructors is not bound to a function
        obtain ⟨_, _, _, _, ho, _⟩ := hs.init (hinit hside hx)
        rw [hsv] at ho
        cases ho
      | _ => simp [Store.functionsOf, hsv, htv]
  cases side with
  | outside => exact hvalue hb nofun
  | inside =>
    rcases hb with ⟨hv, hinit⟩ | ⟨rfl, hv⟩
    · exact hvalue hv fun _ => hinit
    · obtain ⟨f, f', E, ho, ho'⟩ := hs.hidden hv
      exact functionsOf_function ho ho' fun _ => .hidden f f' E rfl

theorem functionsOf {bs : Bindings} (hbs : ∀ b ∈ bs, S.Binding w side b) :
    List.Forall₂ (AlikeMethod S side) (s.functionsOf T bs) (t.functionsOf T bs) := by
  induction bs with
  | nil => exact .nil
  | cons b bs ih =>
    obtain ⟨hb, hrest⟩ := List.forall_mem_cons.1 hbs
    have hsplit (s : Store) : s.functionsOf T (b :: bs) = s.functionsOf T [b] ++ s.functionsOf T bs :=
      List.filterMap_append (l := [b])
    rw [hsplit s, hsplit t]
    exact List.rel_append (hs.functionsOf_binding hT hb) (ih hrest)

end Stores

namespace Twin

theorem addMethod (hI : w.frame side I) {p q : String × Closure} (h : AlikeMethod S side p q) :
    S.Twin w done
      (ofStore do
        let method ← Store.allocM (.function { p.2 with frame := I })
        modify (·.set I p.1 method))
      (ofStore do
        let method ← Store.allocM (.function { q.2 with frame := I })
        modify (·.set I q.1 method)) := by
  rw [Eval.ofStore_bind, Eval.ofStore_bind]
  cases h with
  | hidden f f' E hside =>
    subst hside
    exact (allocHidden f f' I).bind fun w₁ v h₁ hv => bindName (h₁.frame hI) (.inr ⟨rfl, hv⟩)
  | other x isPublic E hx hf hmentions =>
    refine (alloc (.function isPublic hf hI hmentions)).bind fun w₁ v h₁ hv => ?_
    exact bindName (h₁.frame hI) (.of_value hv hx)

/-- The frames of new instances of a class. -/
theorem instanceFrame (hT : w.frame side T) : S.Twin w (fun w' I => w'.frame side I)
    (ofStore (Store.instanceFrame T)) (ofStore (Store.instanceFrame T)) := by
  unfold Store.instanceFrame
  rw [Eval.ofStore_bind]
  refine (copyFrame hT).bind fun w₁ I h₁ hI => ?_
  rw [Eval.ofStore_read]
  refine read fun s t hs => ?_
  rw [Store.bindings_congr hs.frames, Eval.ofStore_bind, Eval.ofStore_bind, Eval.ofStore_forM, Eval.ofStore_forM]
  have hmethods := hs.functionsOf (h₁.frame hT) fun b hb => hs.binding hI hb
  refine (forM hmethods fun w₂ p q h₂ _ hpq => ?_).bind (fun w₂ _ h₂ _ => pure (h₂.frame hI)) hs
  exact addMethod (h₂.frame hI) hpq

end Twin
end Secret
end Pron
