import Pron.Proofs.Locality
import Pron.Proofs.WellFormed

/-!
# Renaming

References are numbers that are given out in order, so two runs that do the same may do it under different numbers. A
`Renaming` pairs frames and objects of two stores. It is faithful when what is paired is alike up to the pairing
(`Renaming.Faithful`). Evaluations in paired frames then end alike, with a renaming that also pairs what they make, and
change nothing that is not paired (`Renaming.Le`, `Renaming.recs`).
-/

namespace Pron

/-- Two stores, with pairs of frames and of objects of the one and the other. -/
structure Renaming where
  left : Store
  right : Store
  frame : FrameId → FrameId → Prop
  object : ObjectId → ObjectId → Prop

namespace Renaming

/-- Values that are the same, or refer to paired objects. -/
inductive Same (w : Renaming) : Value → Value → Prop
  | null : Same w .null .null
  | boolean (b : Bool) : Same w (.boolean b) (.boolean b)
  | ref {i j : ObjectId} : w.object i j → Same w (.ref i) (.ref j)

/-- The values and frames that are paired. No evaluation looks into the frames of constructors, so these need not be. -/
def matching (w : Renaming) : Matching where
  value := w.Same
  frame := w.frame
  owner E F := w.frame E F ∧ (w.left.HasFrame E ∧ w.right.HasFrame F) ∧ w.left.parent? E = none
  maker E F := w.left.HasFrame E ∧ w.right.HasFrame F
  filed _ _ _ := True
  ordered := True

/-- The places of the left store that are paired. -/
def leftPlaces (w : Renaming) : Place → Prop
  | .frame E => ∃ F, w.frame E F
  | .object i => ∃ j, w.object i j

/-- The places of the right store that are paired. -/
def rightPlaces (w : Renaming) : Place → Prop
  | .frame F => ∃ E, w.frame E F
  | .object j => ∃ i, w.object i j

/-- What is paired is alike, and nothing is paired twice. -/
structure Faithful (w : Renaming) : Prop where
  left : w.left.WellFormed
  right : w.right.WellFormed
  frame_has {E F : FrameId} : w.frame E F → w.left.HasFrame E ∧ w.right.HasFrame F
  object_has {i j : ObjectId} : w.object i j → w.left.HasValue (.ref i) ∧ w.right.HasValue (.ref j)
  frame_iff {E F E' F' : FrameId} : w.frame E F → w.frame E' F' → (E = E' ↔ F = F')
  object_iff {i j i' j' : ObjectId} : w.object i j → w.object i' j' → (i = i' ↔ j = j')
  parent {E F : FrameId} : w.frame E F → Option.Rel w.frame (w.left.parent? E) (w.right.parent? F)
  bindings {E F : FrameId} : w.frame E F → List.Forall₂ w.matching.Binding (w.left.bindings E) (w.right.bindings F)
  object {i j : ObjectId} : w.object i j → w.matching.Datum (w.left.datum (.ref i)) (w.right.datum (.ref j))

/-- A renaming with more pairs: those that are added are of what is new. -/
structure Grows (w w' : Renaming) : Prop where
  frame {E F : FrameId} : w.frame E F → w'.frame E F
  object {i j : ObjectId} : w.object i j → w'.object i j
  left_old {p : Place} : w.left.Has p → w'.leftPlaces p → w.leftPlaces p
  right_old {p : Place} : w.right.Has p → w'.rightPlaces p → w.rightPlaces p

/-- A later renaming: what is not paired is as it was. -/
structure Le (w w' : Renaming) : Prop extends Grows w w' where
  left : Spared w.leftPlaces w.left w'.left
  right : Spared w.rightPlaces w.right w'.right

section Grows

variable {w w' : Renaming} {u v : Value}

theorem Grows.refl (w : Renaming) : w.Grows w := ⟨id, id, fun _ h => h, fun _ h => h⟩

/-- Values that were the same stay so. -/
theorem Grows.same (h : w.Grows w') (huv : w.Same u v) : w'.Same u v := by
  cases huv with
  | null => exact .null
  | boolean b => exact .boolean b
  | ref hij => exact .ref (h.object hij)

/-- What is paired stays paired, as long as frames stay inside the same frames. -/
theorem Grows.matching {A B : Place → Prop} (h : w.Grows w') (hleft : Spared A w.left w'.left)
    (hright : Spared B w.right w'.right) : w.matching.Le w'.matching where
  value := h.same
  frame := h.frame
  owner := fun {E F} ⟨hEF, ⟨hE, hF⟩, hroot⟩ =>
    ⟨h.frame hEF, ⟨hleft.has (p := .frame E) hE, hright.has (p := .frame F) hF⟩, (hleft.parent hE).trans hroot⟩
  maker := fun {E F} ⟨hE, hF⟩ => ⟨hleft.has (p := .frame E) hE, hright.has (p := .frame F) hF⟩
  ordered := id

end Grows

namespace Le

variable {w w' w₁ w₂ w₃ : Renaming}

theorem refl (w : Renaming) : w.Le w := ⟨.refl w, .refl _ _, .refl _ _⟩

/-- Renamings grow step by step. -/
theorem trans (h₁ : w₁.Le w₂) (h₂ : w₂.Le w₃) : w₁.Le w₃ where
  frame h := h₂.frame (h₁.frame h)
  object h := h₂.object (h₁.object h)
  left := h₁.left.trans h₂.left fun _ => h₁.left_old
  right := h₁.right.trans h₂.right fun _ => h₁.right_old
  left_old hp h := h₁.left_old hp (h₂.left_old (h₁.left.has hp) h)
  right_old hp h := h₁.right_old hp (h₂.right_old (h₁.right.has hp) h)

theorem matching (h : w.Le w') : w.matching.Le w'.matching := h.toGrows.matching h.left h.right

/-- Pairs of values stay alike, however the stores have changed. -/
theorem datum (h : w.Le w') {d e : Datum} (hde : w.matching.Datum d e) : w'.matching.Datum d e :=
  hde.mono h.matching fun _ => trivial

/-- Bindings that were the same stay so. -/
theorem binding (h : w.Le w') {bs cs : Bindings} (hb : List.Forall₂ w.matching.Binding bs cs) :
    List.Forall₂ w'.matching.Binding bs cs := hb.imp fun _ _ hbc => ⟨hbc.1, h.matching.value hbc.2⟩

theorem parent (h : w.Le w') {E F : Option FrameId} (hP : Option.Rel w.frame E F) : Option.Rel w'.frame E F :=
  rel_mono hP fun _ _ => h.frame

end Le

/-! ## What is there -/

namespace Faithful

variable {w : Renaming} {u v u' v' : Value} {E F : FrameId} {o p : Object}

/-- What is renamed is there. -/
theorem left_has (hw : w.Faithful) {p : Place} (h : w.leftPlaces p) : w.left.Has p := by
  cases p with
  | frame E =>
    obtain ⟨F, hEF⟩ := h
    exact (hw.frame_has hEF).1
  | object i =>
    obtain ⟨j, hij⟩ := h
    exact (hw.object_has hij).1

/-- Values that are the same are there, each on its side. -/
theorem value_has (hw : w.Faithful) (h : w.Same u v) : w.left.HasValue u ∧ w.right.HasValue v := by
  cases h with
  | null | boolean => exact ⟨trivial, trivial⟩
  | ref hij => exact hw.object_has hij

/-- The same value on one side is the same on the other, since a renaming is one to one. -/
theorem value_iff (hw : w.Faithful) (h : w.Same u v) (h' : w.Same u' v') : u = u' ↔ v = v' := by
  cases h with
  | null | boolean => cases h' <;> simp
  | ref hij =>
    cases h' with
    | null | boolean => simp
    | ref hij' => simpa using hw.object_iff hij hij'

/-- Values that are the same refer to the same data. -/
theorem datum (hw : w.Faithful) (h : w.Same u v) : w.matching.Datum (w.left.datum u) (w.right.datum v) := by
  cases h with
  | null => exact .null
  | boolean b => exact .boolean b
  | ref hij => exact hw.object hij

/-- Frames around which there is nothing correspond to each other. -/
theorem root (hw : w.Faithful) (h : w.frame E F) (hE : w.left.parent? E = none) : w.right.parent? F = none := by
  have hP := hw.parent h
  rw [hE] at hP
  generalize w.right.parent? F = P at hP
  cases hP
  rfl

/-- What paired objects refer to is there. -/
theorem known (hw : w.Faithful) (h : w.matching.Object o p) : w.left.known.Object o ∧ w.right.known.Object p := by
  cases h with
  | integer | real | text | builtin => exact ⟨trivial, trivial⟩
  | array h => exact forall_mem_of_forall₂ h fun _ _ => hw.value_has
  | hash h =>
    have hsorted := h.sorted trivial
    have hentries := forall_mem_of_forall₂ (P := w.left.known.Entry) (Q := w.right.known.Entry) h.pairwise
      fun d e hde => ⟨⟨trivial, (hw.value_has hde.key).1, (hw.value_has hde.value).1⟩,
        ⟨trivial, (hw.value_has hde.key).2, (hw.value_has hde.value).2⟩⟩
    exact ⟨⟨hentries.1, fun _ => hsorted⟩, ⟨hentries.2, fun _ => hsorted.of_contents h.contents_eq.symm⟩⟩
  | function _ _ h => exact hw.frame_has h
  | inst _ h => exact ⟨⟨h.2.1.1, h.2.2⟩, h.2.1.2, hw.root h.1 h.2.2⟩
  | init _ h => exact h

/-! ## What is read -/

theorem chainUpTo (hw : w.Faithful) (h : w.frame E F) (n : Nat) :
    List.Forall₂ w.frame (w.left.chainUpTo n E) (w.right.chainUpTo n F) := by
  induction n generalizing E F with
  | zero => exact .cons h .nil
  | succ n ih =>
    unfold Store.chainUpTo
    rcases rel_cases (hw.parent h) with ⟨hP, hQ⟩ | ⟨P, Q, hP, hQ, hPQ⟩
    · rw [hP, hQ]
      exact .cons h .nil
    · rw [hP, hQ]
      exact .cons h (ih hPQ)

theorem chain (hw : w.Faithful) (h : w.frame E F) : List.Forall₂ w.frame (w.left.chain E) (w.right.chain F) := by
  have hchain := hw.chainUpTo h (max E.index F.index)
  rwa [hw.left.chainUpTo_eq (Nat.le_max_left _ _), hw.right.chainUpTo_eq (Nat.le_max_right _ _)] at hchain

theorem displayUpTo (hw : w.Faithful) (h : w.Same u v) (n : Nat) :
    w.left.displayUpTo n u = w.right.displayUpTo n v := by
  induction n generalizing u v with
  | zero => rfl
  | succ n ih =>
    have hd := hw.datum h
    unfold Store.displayUpTo
    generalize w.left.datum u = d at hd
    generalize w.right.datum v = e at hd
    cases hd with
    | null | boolean => rfl
    | object ho =>
      cases ho with
      | array hus =>
        dsimp only
        rw [map_eq_of_forall₂ hus fun _ _ => ih]
      | hash hes =>
        dsimp only
        rw [map_eq_of_forall₂ hes.pairwise fun d e hde => by rw [ih hde.key, ih hde.value]]
      | _ => rfl

/-- Values that are the same are shown alike. -/
theorem display (hw : w.Faithful) (h : w.Same u v) : w.left.display u = w.right.display v := by
  have htext := hw.displayUpTo h (max (Store.depthBound u) (Store.depthBound v))
  rwa [hw.left.displayUpTo_eq (Nat.le_max_left _ _), hw.right.displayUpTo_eq (Nat.le_max_right _ _)] at htext

theorem describe (hw : w.Faithful) (h : w.Same u v) : w.left.describe u = w.right.describe v := by
  have hd := hw.datum h
  have htext := hw.display h
  unfold Store.describe
  generalize w.left.datum u = d at hd
  generalize w.right.datum v = e at hd
  rw [htext]
  cases hd with
  | null | boolean => rfl
  | object ho => cases ho <;> rfl

end Faithful

/-! ## What is written -/

section Written

variable {w : Renaming} {E F : FrameId} {i j : ObjectId} {u v : Value} {o p : Object} {f g : Frame}

/-- The renaming after an object was added to both stores. -/
def alloc (w : Renaming) (o p : Object) : Renaming where
  left := (w.left.alloc o).2
  right := (w.right.alloc p).2
  frame := w.frame
  object i j := w.object i j ∨ i.index = w.left.objects.size ∧ j.index = w.right.objects.size

/-- A new object on either side renames nothing else. -/
theorem Le.alloc (w : Renaming) (o p : Object) : w.Le (w.alloc o p) where
  frame := id
  object := .inl
  left := .alloc _ _ _
  right := .alloc _ _ _
  left_old {q} hq h := by
    cases q with
    | frame E => exact h
    | object i =>
      obtain ⟨j, hij | ⟨hi, _⟩⟩ := h
      · exact ⟨j, hij⟩
      · have hlt : i.index < w.left.objects.size := hq
        omega
  right_old {q} hq h := by
    cases q with
    | frame F => exact h
    | object j =>
      obtain ⟨i, hij | ⟨_, hj⟩⟩ := h
      · exact ⟨i, hij⟩
      · have hlt : j.index < w.right.objects.size := hq
        omega

/-- The new objects are the same. -/
theorem same_alloc (w : Renaming) (o p : Object) : (w.alloc o p).Same (w.left.alloc o).1 (w.right.alloc p).1 :=
  .ref (.inr ⟨rfl, rfl⟩)

/-- New objects with the same content are faithful. -/
theorem Faithful.alloc (hw : w.Faithful) (h : w.matching.Object o p) : (w.alloc o p).Faithful where
  left := hw.left.alloc (hw.known h).1
  right := hw.right.alloc (hw.known h).2
  frame_has := hw.frame_has
  object_has := by
    rintro ⟨i⟩ ⟨j⟩ (hij | ⟨rfl, rfl⟩)
    · exact ⟨Store.hasValue_alloc (hw.object_has hij).1, Store.hasValue_alloc (hw.object_has hij).2⟩
    · exact ⟨Store.hasValue_alloc_self, Store.hasValue_alloc_self⟩
  frame_iff := hw.frame_iff
  object_iff := by
    rintro ⟨i⟩ ⟨j⟩ ⟨i'⟩ ⟨j'⟩ (hij | ⟨hi, hj⟩) (hij' | ⟨hi', hj'⟩)
    · exact hw.object_iff hij hij'
    · have hlt : i < w.left.objects.size ∧ j < w.right.objects.size := hw.object_has hij
      simp only [ObjectId.mk.injEq] at hi' hj' ⊢
      omega
    · have hlt : i' < w.left.objects.size ∧ j' < w.right.objects.size := hw.object_has hij'
      simp only [ObjectId.mk.injEq] at hi hj ⊢
      omega
    · simp only [ObjectId.mk.injEq] at hi hj hi' hj' ⊢
      omega
  parent := hw.parent
  bindings h' := (Le.alloc w o p).binding (hw.bindings h')
  object := by
    rintro ⟨i⟩ ⟨j⟩ (hij | ⟨rfl, rfl⟩)
    · rw [show (w.alloc o p).left.datum (.ref ⟨i⟩) = _ from Store.datum_alloc (hw.object_has hij).1,
        show (w.alloc o p).right.datum (.ref ⟨j⟩) = _ from Store.datum_alloc (hw.object_has hij).2]
      exact (Le.alloc w o p).datum (hw.object hij)
    · rw [show (w.alloc o p).left.datum (.ref ⟨_⟩) = _ from Store.datum_alloc_self,
        show (w.alloc o p).right.datum (.ref ⟨_⟩) = _ from Store.datum_alloc_self]
      exact (Le.alloc w o p).datum (.object h)

/-- The renaming after a frame was added to both stores. -/
def newFrame (w : Renaming) (f g : Frame) : Renaming where
  left := (w.left.newFrame f).2
  right := (w.right.newFrame g).2
  frame E F := w.frame E F ∨ E.index = w.left.frames.size ∧ F.index = w.right.frames.size
  object := w.object

/-- A new frame on either side renames nothing else. -/
theorem Le.newFrame (w : Renaming) (f g : Frame) : w.Le (w.newFrame f g) where
  frame := .inl
  object := id
  left := .newFrame _ _ _
  right := .newFrame _ _ _
  left_old {q} hq h := by
    cases q with
    | frame E =>
      obtain ⟨F, hEF | ⟨hE, _⟩⟩ := h
      · exact ⟨F, hEF⟩
      · have hlt : E.index < w.left.frames.size := hq
        omega
    | object i => exact h
  right_old {q} hq h := by
    cases q with
    | frame F =>
      obtain ⟨E, hEF | ⟨_, hF⟩⟩ := h
      · exact ⟨E, hEF⟩
      · have hlt : F.index < w.right.frames.size := hq
        omega
    | object j => exact h

/-- Bindings that correspond bind the same names in the same order. -/
theorem names_eq {M : Matching} {bs cs : Bindings} (h : List.Forall₂ M.Binding bs cs) : bs.names = cs.names :=
  map_eq_of_forall₂ h fun _ _ hbc => hbc.1

/-- New frames with the same bindings inside of frames that are the same are faithful. -/
theorem Faithful.newFrame (hw : w.Faithful) (hparent : Option.Rel w.frame f.parent g.parent)
    (hbindings : List.Forall₂ w.matching.Binding f.bindings g.bindings) (hnames : f.bindings.names.Nodup) :
    (w.newFrame f g).Faithful where
  left := by
    refine hw.left.newFrame (fun P hP => ?_) ?_ hnames
    · rcases rel_cases hparent with ⟨hf, _⟩ | ⟨_, _, hf, _, hPQ⟩
      · rw [hf] at hP
        cases hP
      · rw [hf] at hP
        cases hP
        exact (hw.frame_has hPQ).1
    · exact (forall_mem_of_forall₂ (Q := fun _ => True) hbindings fun _ _ h => ⟨(hw.value_has h.2).1, trivial⟩).1
  right := by
    refine hw.right.newFrame (fun Q hQ => ?_) ?_ (names_eq hbindings ▸ hnames)
    · rcases rel_cases hparent with ⟨_, hg⟩ | ⟨_, _, _, hg, hPQ⟩
      · rw [hg] at hQ
        cases hQ
      · rw [hg] at hQ
        cases hQ
        exact (hw.frame_has hPQ).2
    · exact (forall_mem_of_forall₂ (P := fun _ => True) hbindings fun _ _ h => ⟨trivial, (hw.value_has h.2).2⟩).2
  frame_has := by
    rintro ⟨E⟩ ⟨F⟩ (hEF | ⟨rfl, rfl⟩)
    · exact ⟨Store.hasFrame_newFrame (hw.frame_has hEF).1, Store.hasFrame_newFrame (hw.frame_has hEF).2⟩
    · exact ⟨Store.hasFrame_newFrame_self, Store.hasFrame_newFrame_self⟩
  object_has := hw.object_has
  frame_iff := by
    rintro ⟨E⟩ ⟨F⟩ ⟨E'⟩ ⟨F'⟩ (hEF | ⟨hE, hF⟩) (hEF' | ⟨hE', hF'⟩)
    · exact hw.frame_iff hEF hEF'
    · have hlt : E < w.left.frames.size ∧ F < w.right.frames.size := hw.frame_has hEF
      simp only [FrameId.mk.injEq] at hE' hF' ⊢
      omega
    · have hlt : E' < w.left.frames.size ∧ F' < w.right.frames.size := hw.frame_has hEF'
      simp only [FrameId.mk.injEq] at hE hF ⊢
      omega
    · simp only [FrameId.mk.injEq] at hE hF hE' hF' ⊢
      omega
  object_iff := hw.object_iff
  parent := by
    rintro ⟨E⟩ ⟨F⟩ (hEF | ⟨rfl, rfl⟩)
    · rw [show (w.newFrame f g).left.parent? ⟨E⟩ = _ from Store.parent?_newFrame (hw.frame_has hEF).1,
        show (w.newFrame f g).right.parent? ⟨F⟩ = _ from Store.parent?_newFrame (hw.frame_has hEF).2]
      exact (Le.newFrame w f g).parent (hw.parent hEF)
    · rw [show (w.newFrame f g).left.parent? ⟨_⟩ = _ from Store.parent?_newFrame_self,
        show (w.newFrame f g).right.parent? ⟨_⟩ = _ from Store.parent?_newFrame_self]
      exact (Le.newFrame w f g).parent hparent
  bindings := by
    rintro ⟨E⟩ ⟨F⟩ (hEF | ⟨rfl, rfl⟩)
    · rw [show (w.newFrame f g).left.bindings ⟨E⟩ = _ from Store.bindings_newFrame (hw.frame_has hEF).1,
        show (w.newFrame f g).right.bindings ⟨F⟩ = _ from Store.bindings_newFrame (hw.frame_has hEF).2]
      exact (Le.newFrame w f g).binding (hw.bindings hEF)
    · rw [show (w.newFrame f g).left.bindings ⟨_⟩ = _ from Store.bindings_newFrame_self,
        show (w.newFrame f g).right.bindings ⟨_⟩ = _ from Store.bindings_newFrame_self]
      exact (Le.newFrame w f g).binding hbindings
  object h := (Le.newFrame w f g).datum (hw.object h)

/-- The renaming after paired frames bound a name. -/
def set (w : Renaming) (E F : FrameId) (x : String) (u v : Value) : Renaming :=
  { w with left := w.left.set E x u, right := w.right.set F x v }

/-- An assignment renames nothing. -/
theorem Le.set (hEF : w.frame E F) (x : String) (u v : Value) : w.Le (w.set E F x u v) where
  frame := id
  object := id
  left := .set (A := w.leftPlaces) ⟨F, hEF⟩ x
  right := .set (A := w.rightPlaces) ⟨E, hEF⟩ x
  left_old _ h := h
  right_old _ h := h

/-- Bindings that correspond do so after a name is bound on both sides. -/
theorem forall₂_insert {M : Matching} {bs cs : Bindings} (h : List.Forall₂ M.Binding bs cs) (x : String)
    (huv : M.value u v) : List.Forall₂ M.Binding (Bindings.insert x u bs) (Bindings.insert x v cs) := by
  induction h with
  | nil => exact .cons ⟨rfl, huv⟩ .nil
  | @cons b c bs cs hbc hrest ih =>
    obtain ⟨y, b⟩ := b
    obtain ⟨z, c⟩ := c
    obtain ⟨rfl, hbc⟩ := hbc
    unfold Bindings.insert
    split
    · exact .cons ⟨rfl, huv⟩ hrest
    · exact .cons ⟨rfl, hbc⟩ ih

/-- The same value can be bound in frames that are the same. -/
theorem Faithful.set (hw : w.Faithful) (hEF : w.frame E F) (x : String) (huv : w.Same u v) :
    (w.set E F x u v).Faithful where
  left := hw.left.set x (hw.value_has huv).1
  right := hw.right.set x (hw.value_has huv).2
  frame_has h := ⟨Store.hasFrame_set.2 (hw.frame_has h).1, Store.hasFrame_set.2 (hw.frame_has h).2⟩
  object_has := hw.object_has
  frame_iff := hw.frame_iff
  object_iff := hw.object_iff
  parent {E' F'} h := by
    rw [show (w.set E F x u v).left.parent? E' = _ from Store.parent?_set,
      show (w.set E F x u v).right.parent? F' = _ from Store.parent?_set]
    exact hw.parent h
  bindings {E' F'} h := by
    refine (Le.set hEF x u v).binding ?_
    have hiff := hw.frame_iff hEF h
    by_cases hE : E = E'
    · obtain rfl := hiff.1 hE
      subst hE
      rw [show (w.set E F x u v).left.bindings E = _ from Store.bindings_set_self (hw.frame_has hEF).1,
        show (w.set E F x u v).right.bindings F = _ from Store.bindings_set_self (hw.frame_has hEF).2]
      exact forall₂_insert (hw.bindings hEF) x huv
    · rw [show (w.set E F x u v).left.bindings E' = _ from Store.bindings_set_of_ne hE,
        show (w.set E F x u v).right.bindings F' = _ from Store.bindings_set_of_ne (mt hiff.2 hE)]
      exact hw.bindings h
  object h := (Le.set hEF x u v).datum (hw.object h)

/-- The renaming after paired objects were changed. -/
def write (w : Renaming) (i j : ObjectId) (o p : Object) : Renaming :=
  { w with left := w.left.write i o, right := w.right.write j p }

/-- Writing renames nothing, as long as functions, classes and the like are not written over. -/
theorem Le.write {o' p' : Object} (hij : w.object i j) (ho : w.left.datum (.ref i) = .object o') (hfixed : ¬o'.Fixed)
    (hp : w.right.datum (.ref j) = .object p') (hfixed' : ¬p'.Fixed) : w.Le (w.write i j o p) where
  frame := id
  object := id
  left := .write (A := w.leftPlaces) ⟨j, hij⟩ ho hfixed
  right := .write (A := w.rightPlaces) ⟨i, hij⟩ hp hfixed'
  left_old _ h := h
  right_old _ h := h

/-- The same content can be written on both sides. -/
theorem Faithful.write (hw : w.Faithful) (hij : w.object i j) (h : w.matching.Object o p)
    (hle : w.Le (w.write i j o p)) (hleft : (w.left.write i o).WellFormed) (hright : (w.right.write j p).WellFormed) :
    (w.write i j o p).Faithful where
  left := hleft
  right := hright
  frame_has := hw.frame_has
  object_has h' := ⟨Store.hasValue_write.2 (hw.object_has h').1, Store.hasValue_write.2 (hw.object_has h').2⟩
  frame_iff := hw.frame_iff
  object_iff := hw.object_iff
  parent := hw.parent
  bindings h' := hle.binding (hw.bindings h')
  object {i' j'} h' := by
    refine hle.datum ?_
    have hiff := hw.object_iff h' hij
    by_cases hi : i' = i
    · obtain rfl := hiff.1 hi
      subst hi
      rw [show (w.write i' j' o p).left.datum _ = _ from Store.datum_write_self (hw.object_has hij).1,
        show (w.write i' j' o p).right.datum _ = _ from Store.datum_write_self (hw.object_has hij).2]
      exact .object h
    · have hne : Value.ref i' ≠ .ref i := fun h => hi (by cases h; rfl)
      have hne' : Value.ref j' ≠ .ref j := fun h => hi (hiff.2 (by cases h; rfl))
      rw [show (w.write i j o p).left.datum _ = _ from Store.datum_write_of_ne hne,
        show (w.write i j o p).right.datum _ = _ from Store.datum_write_of_ne hne']
      exact hw.object h'

/-- The renaming after other things were printed and asked for. -/
def withLogs (w : Renaming) (printed printed' : String) (requests requests' : List String) : Renaming :=
  { w with left := w.left.withLogs printed requests, right := w.right.withLogs printed' requests' }

theorem Le.withLogs (w : Renaming) (printed printed' : String) (requests requests' : List String) :
    w.Le (w.withLogs printed printed' requests requests') :=
  ⟨⟨id, id, fun _ h => h, fun _ h => h⟩, .withLogs _ _ _ _, .withLogs _ _ _ _⟩

theorem Faithful.withLogs (hw : w.Faithful) (printed printed' : String) (requests requests' : List String) :
    (w.withLogs printed printed' requests requests').Faithful where
  left := hw.left.withLogs _ _
  right := hw.right.withLogs _ _
  frame_has := hw.frame_has
  object_has := hw.object_has
  frame_iff := hw.frame_iff
  object_iff := hw.object_iff
  parent := hw.parent
  bindings h := (Le.withLogs w _ _ _ _).binding (hw.bindings h)
  object h := (Le.withLogs w _ _ _ _).datum (hw.object h)

end Written

/-! ## Renamings as a simulation -/

/-- Faithful renamings of two stores in which the same was printed and asked for. -/
def simulation : Simulation where
  World := Renaming
  Le := Le
  Quiet := Le
  matching := matching
  stores w s t := s = w.left ∧ t = w.right ∧ w.Faithful ∧ s.printed = t.printed ∧ s.requests = t.requests
  refl := Le.refl
  trans := Le.trans
  mono := Le.matching
  quiet_refl := Le.refl
  quiet_trans := Le.trans
  quiet_le h := h
  filed_mono _ _ := trivial
  null _ := .null
  boolean _ b := .boolean b
  owner_frame h := h.1
  owner_maker h := h.2.1
  datum := by
    rintro w _ _ u v ⟨rfl, rfl, hw, _⟩ h
    exact hw.datum h
  value_eq_iff := by
    rintro w _ _ u v u' v' ⟨rfl, rfl, hw, _⟩ h h'
    exact hw.value_iff h h'
  frame_eq_iff := by
    rintro w _ _ E F E' F' ⟨rfl, rfl, hw, _⟩ h h'
    exact hw.frame_iff h h'
  chain := by
    rintro w _ _ E F ⟨rfl, rfl, hw, _⟩ h
    exact hw.chain h
  bindings := by
    rintro w _ _ E F ⟨rfl, rfl, hw, _⟩ h
    exact hw.bindings h
  display := by
    rintro w _ _ u v ⟨rfl, rfl, hw, _⟩ h
    exact hw.display h
  filed _ _ _ := trivial
  copyDepth := by
    rintro w _ _ u v ⟨rfl, rfl, hw, _⟩ _
    have hleft := hw.left.copyUpTo_eq (Nat.le_max_left (Store.depthBound u) (Store.depthBound v))
    have hright := hw.right.copyUpTo_eq (Nat.le_max_right (Store.depthBound u) (Store.depthBound v))
    exact ⟨_, hleft.symm, hright.symm⟩
  filed_copy _ _ _ _ := trivial
  alloc := by
    rintro w _ _ o p ⟨rfl, rfl, hw, hlogs⟩ h
    exact ⟨w.alloc o p, .alloc w o p, ⟨rfl, rfl, hw.alloc h, hlogs⟩, w.same_alloc o p⟩
  newFrame := by
    rintro w _ _ f g ⟨rfl, rfl, hw, hlogs⟩ ⟨D, hD⟩ hparent hbindings
    have hframe : (w.newFrame f g).frame (w.left.newFrame f).1 (w.right.newFrame g).1 := .inr ⟨rfl, rfl⟩
    refine ⟨w.newFrame f g, .newFrame w f g, ⟨rfl, rfl, ?_, hlogs⟩, hframe, fun h => ?_⟩
    · exact hw.newFrame hparent hbindings (hD ▸ hw.left.names D)
    · exact ⟨hframe, ⟨Store.hasFrame_newFrame_self, Store.hasFrame_newFrame_self⟩, Store.parent?_newFrame_self.trans h⟩
  set := by
    rintro w _ _ E F u v x ⟨rfl, rfl, hw, hlogs⟩ hEF huv
    exact ⟨w.set E F x u v, .set hEF x u v, rfl, rfl, hw.set hEF x huv, hlogs⟩
  erase := by
    rintro w _ _ i j ds es c ⟨rfl, rfl, hw, hlogs⟩ hij hds hes
    cases hij with
    | ref hij =>
      have hd := hw.object hij
      rw [hds, hes] at hd
      cases hd with
      | object hentries =>
        cases hentries with
        | hash hentries =>
          have hle := Le.write (o := .hash (Entries.erase c ds)) (p := .hash (Entries.erase c es)) hij hds (fun h => h)
            hes fun h => h
          refine ⟨_, hle, rfl, rfl, ?_, hlogs⟩
          exact hw.write hij (.hash (hentries.erase c)) hle (hw.left.erase hds c) (hw.right.erase hes c)
  print := by
    rintro w _ _ text ⟨rfl, rfl, hw, hprinted, hrequests⟩
    exact ⟨_, .withLogs w _ _ _ _, rfl, rfl, hw.withLogs _ _ _ _, congrArg (· ++ text) hprinted, hrequests⟩
  request := by
    rintro w _ _ className ⟨rfl, rfl, hw, hprinted, hrequests⟩
    exact ⟨_, .withLogs w _ _ _ _, rfl, rfl, hw.withLogs _ _ _ _, hprinted, congrArg (· ++ [className]) hrequests⟩

/-- Evaluations in paired frames follow each other. -/
theorem recs (library : Library) (n : Nat) : simulation.Recs (Eval.expr library n) (Eval.expr library n) := by
  refine Simulation.expr (Simulation.steps_of_write ?_) (fun h => h) library n
  rintro w _ _ i j n m ⟨rfl, rfl, hw, hlogs⟩ hij hi hj
  cases hij with
  | ref hij =>
    have hle := Le.write (o := .integer m) (p := .integer m) hij hi (fun h => h) hj fun h => h
    have hw' := hw.write hij (.integer m) hle (hw.left.writeInteger hi m) (hw.right.writeInteger hj m)
    exact ⟨_, hle, rfl, rfl, hw', hlogs⟩

end Renaming

end Pron
