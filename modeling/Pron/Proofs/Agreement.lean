import Pron.Proofs.Actions
import Pron.Proofs.Renaming

/-!
# Actions under a renaming

An action looks alike in the two stores of a renaming when it calls a method of paired objects or makes an object of a
paired class (`Renaming.call_agree`, `Renaming.make_agree`). Before all actions the separable classes are paired with
themselves (`Renaming.classes`). The frame of the program is not paired: it binds objects of both stores that are not.
-/

namespace Pron

/-! ## Renamings of other stores -/

namespace Renaming

variable {w : Renaming} {s t : Store} {A B : Place → Prop}

/-- The same pairs, of other stores. -/
def replace (w : Renaming) (s t : Store) : Renaming := { w with left := s, right := t }

theorem Grows.replace (w : Renaming) (s t : Store) : w.Grows (w.replace s t) := ⟨id, id, fun _ h => h, fun _ h => h⟩

/-- A renaming stays faithful while what is paired is spared. -/
theorem Faithful.replace (hw : w.Faithful) (hs : Spared A w.left s) (ht : Spared B w.right t)
    (hA : ∀ p, w.leftPlaces p → ¬A p) (hB : ∀ p, w.rightPlaces p → ¬B p) (hswf : s.WellFormed) (htwf : t.WellFormed) :
    (w.replace s t).Faithful := by
  have hle : w.matching.Le (w.replace s t).matching := (Grows.replace w s t).matching hs ht
  refine ⟨hswf, htwf, fun {E F} h => ?_, fun {i j} h => ?_, hw.frame_iff, hw.object_iff, fun {E F} h => ?_,
    fun {E F} h => ?_, fun {i j} h => ?_⟩
  · obtain ⟨hE, hF⟩ := hw.frame_has h
    exact ⟨hs.has (p := .frame E) hE, ht.has (p := .frame F) hF⟩
  · obtain ⟨hi, hj⟩ := hw.object_has h
    exact ⟨hs.has (p := .object i) hi, ht.has (p := .object j) hj⟩
  · obtain ⟨hE, hF⟩ := hw.frame_has h
    have hparent := hw.parent h
    rwa [← hs.parent hE, ← ht.parent hF] at hparent
  · obtain ⟨hE, hF⟩ := hw.frame_has h
    have hbindings := hw.bindings h
    rw [← hs.bindings hE (hA _ ⟨F, h⟩), ← ht.bindings hF (hB _ ⟨E, h⟩)] at hbindings
    exact hbindings.imp fun _ _ hbc => ⟨hbc.1, hle.value hbc.2⟩
  · obtain ⟨hi, hj⟩ := hw.object_has h
    have hdatum := hw.object h
    rw [← hs.datum hi (hA _ ⟨j, h⟩), ← ht.datum hj (hB _ ⟨i, h⟩)] at hdatum
    exact hdatum.mono hle fun _ => trivial

/-! ## Actions under a renaming -/

/-- A root of both stores that is not paired. -/
structure Outside (w : Renaming) (G : FrameId) : Prop where
  left_has : w.left.HasFrame G
  right_has : w.right.HasFrame G
  left_root : w.left.parent? G = none
  right_root : w.right.parent? G = none
  left : ¬w.leftPlaces (.frame G)
  right : ¬w.rightPlaces (.frame G)

theorem Outside.later {w' : Renaming} {G : FrameId} (h : w.Outside G) (hle : w.Le w') : w'.Outside G where
  left_has := hle.left.has (p := .frame G) h.left_has
  right_has := hle.right.has (p := .frame G) h.right_has
  left_root := (hle.left.parent h.left_has).trans h.left_root
  right_root := (hle.right.parent h.right_has).trans h.right_root
  left := mt (hle.left_old (p := .frame G) h.left_has) h.left
  right := mt (hle.right_old (p := .frame G) h.right_has) h.right

/-- After the name of a root that is not paired was bound to paired values. -/
theorem Outside.bind {G : FrameId} {u v : Value} (hG : w.Outside G) (hw : w.Faithful) (huv : w.Same u v) (x : String) :
    (w.replace (w.left.set G x u) (w.right.set G x v)).Faithful ∧
      Option.Rel w.Same ((w.left.set G x u).get? G x) ((w.right.set G x v).get? G x) := by
  have hset (s : Store) (v : Value) : Spared (fun p => p = .frame G) s (s.set G x v) :=
    .set (A := fun p => p = .frame G) rfl x
  have hvalues := hw.value_has huv
  constructor
  · refine hw.replace (hset _ _) (hset _ _) ?_ ?_ (hw.left.set x hvalues.1) (hw.right.set x hvalues.2)
    · rintro p hp rfl
      exact hG.left hp
    · rintro p hp rfl
      exact hG.right hp
  · rw [Store.get?_set_of_root hG.left_root hG.left_has, Store.get?_set_of_root hG.right_root hG.right_has]
    exact .some huv

/-- An action looks alike in both stores, and a renaming pairs what is there afterwards. -/
structure Agrees (w : Renaming) (library : Library) (n : Nat) (G : FrameId) (action : Action) (w' : Renaming) :
    Prop where
  grows : w.Grows w'
  faithful : w'.Faithful
  left : w'.left = (action.run library n G w.left).2
  right : w'.right = (action.run library n G w.right).2
  report : action.report G (action.run library n G w.left) = action.report G (action.run library n G w.right)

/-- A name is bound alike in both stores: still to a value of the given store, or to paired values. -/
def Named (w : Renaming) (s : Store) (G : FrameId) (x : String) : Prop :=
  (∃ v, s.get? G x = some v ∧ w.left.get? G x = some v ∧ w.right.get? G x = some v) ∨
    Option.Rel w.Same (w.left.get? G x) (w.right.get? G x)

theorem Named.later {w' : Renaming} {s : Store} {G : FrameId} {x : String} (h : w.Named s G x) (hgrows : w.Grows w')
    (hleft : w'.left.get? G x = w.left.get? G x) (hright : w'.right.get? G x = w.right.get? G x) : w'.Named s G x := by
  rw [Named, hleft, hright]
  exact h.imp_right fun hx => rel_mono hx fun _ _ => hgrows.same

/-- Outcomes that correspond look alike. -/
theorem seen_eq {x y : Eval Value} (h : Simulation.Agree (S := simulation) w Simulation.values (x s) (y t)) :
    ∃ w', w.Le w' ∧ simulation.stores w' (Outcome.of x s).2 (Outcome.of y t).2 ∧
      (Outcome.of x s).1.seen (Outcome.of x s).2 = (Outcome.of y t).1.seen (Outcome.of y t).2 := by
  unfold Outcome.of
  generalize x s = r at h
  generalize y t = r' at h
  cases r with
  | ok u s' =>
    cases r' with
    | error => exact h.elim
    | ok v t' =>
      obtain ⟨w', hle, hstores, huv⟩ := h
      refine ⟨w', hle, hstores, ?_⟩
      obtain ⟨rfl, rfl, hw, _⟩ := hstores
      exact congrArg Seen.value (hw.describe huv)
  | error stop s' =>
    cases r' with
    | ok => exact h.elim
    | error stop' t' =>
      obtain ⟨w', hle, hstores, hstop⟩ := h
      cases hstop with
      | failed e => exact ⟨w', hle, hstores, rfl⟩
      | tooDeep => exact ⟨w', hle, hstores, rfl⟩
      | returned huv =>
        refine ⟨w', hle, hstores, ?_⟩
        obtain ⟨rfl, rfl, hw, _⟩ := hstores
        exact congrArg Seen.returned (hw.describe huv)

section Actions

variable {G : FrameId} {x : String} (hstores : simulation.stores w w.left w.right) (hG : w.Outside G)

include hstores hG

/-- Calls of methods of paired objects look alike. -/
theorem call_agree (hx : Option.Rel w.Same (w.left.get? G x) (w.right.get? G x)) (library : Library) (n : Nat)
    (method : String) (arguments : List Expr) :
    ∃ w', w.Le w' ∧ w.Agrees library n G (.call x method arguments) w' := by
  have hcall : Simulation.Agree (S := simulation) w Simulation.values
      (Eval.expr library n (.methodCall x method arguments) G w.left)
      (Eval.expr library n (.methodCall x method arguments) G w.right) := by
    cases n with
    | zero => exact ⟨w, .refl w, hstores, .tooDeep⟩
    | succ n =>
      refine Simulation.Follows.callMethod (recs library n) x method arguments ?_ ?_ hstores
      · rintro _ _ ⟨rfl, rfl, _⟩
        exact hx
      · rintro _ _ I J ⟨rfl, rfl, _⟩ hIJ
        rw [Store.root_of_root hG.left_root, Store.root_of_root hG.right_root]
        constructor
        · rintro rfl
          exact (hG.left ⟨J, hIJ⟩).elim
        · rintro rfl
          exact (hG.right ⟨I, hIJ⟩).elim
  obtain ⟨w', hle, ⟨hleft, hright, hw, hprinted, hrequests⟩, hseen⟩ := seen_eq hcall
  exact ⟨w', hle, hle.toGrows, hw, hleft.symm, hright.symm, Report.ext hseen rfl hprinted hrequests⟩

omit hstores hG in
theorem fieldsOf_eq (hw : w.Faithful) (hx : Option.Rel w.Same (w.left.get? G x) (w.right.get? G x)) :
    w.left.fieldsOf G x = w.right.fieldsOf G x := by
  unfold Store.fieldsOf
  rcases rel_cases hx with ⟨h₁, h₂⟩ | ⟨u, v, h₁, h₂, huv⟩
  · rw [h₁, h₂]
    rfl
  · rw [h₁, h₂]
    have hd := hw.datum huv
    dsimp only [Option.map_some]
    generalize w.left.datum u = d at hd
    generalize w.right.datum v = e at hd
    cases hd with
    | null | boolean => rfl
    | object ho =>
      cases ho with
      | inst name hI => exact map_eq_of_forall₂ (hw.bindings hI.1) fun b c hbc => Prod.ext hbc.1 (hw.describe hbc.2)
      | _ => rfl

omit hG in
/-- Objects of a paired class are made alike. -/
theorem new_agree {T : FrameId} (hT : w.frame T T) (hroot : w.left.parent? T = none) {className name : String}
    {u v : Value} (hu : w.left.get? G className = some u) (hv : w.right.get? G className = some v)
    (hus : w.left.datum u = .object (.inst name T)) (hvt : w.right.datum v = .object (.inst name T))
    {arguments : List Expr} (harguments : ∀ e ∈ arguments, e.IsLiteral) (library : Library) (n : Nat) :
    Simulation.Agree (S := simulation) w Simulation.values (Eval.expr library n (.new className arguments) G w.left)
      (Eval.expr library n (.new className arguments) G w.right) := by
  cases n with
  | zero => exact ⟨w, .refl w, hstores, .tooDeep⟩
  | succ n =>
    have hleft : Eval.expr library (n + 1) (.new className arguments) G w.left = _ :=
      Eval.makeInstance_of_class hu hus library (Eval.expr library n) arguments
    have hright : Eval.expr library (n + 1) (.new className arguments) G w.right = _ :=
      Eval.makeInstance_of_class hv hvt library (Eval.expr library n) arguments
    -- literals may as well be evaluated in the class
    have hliteral : ∀ e ∈ arguments, Eval.expr library n e G = Eval.expr library n e T :=
      fun e he => Eval.expr_literal library (harguments e he) n G T
    have howner : w.matching.owner T T := ⟨hT, hstores.2.2.1.frame_has hT, hroot⟩
    rw [hleft, hright, Eval.instantiate_congr hliteral]
    exact Simulation.Follows.instantiate (recs library n) className name arguments howner hT hstores

omit hstores in
/-- Objects that are made alike look alike, and are paired. -/
theorem make_agree {className : String} {arguments : List Expr} {library : Library} {n : Nat}
    (hnew : Simulation.Agree (S := simulation) w Simulation.values
      (Eval.expr library n (.new className arguments) G w.left)
      (Eval.expr library n (.new className arguments) G w.right)) :
    ∃ w', w.Agrees library n G (.make x className arguments) w' ∧ ∀ s : Store, w.Named s G x → w'.Named s G x := by
  cases hr : Eval.expr library n (.new className arguments) G w.left with
  | ok u s =>
    cases hr' : Eval.expr library n (.new className arguments) G w.right with
    | error => simp only [hr, hr', Simulation.Agree] at hnew
    | ok v t =>
      rw [hr, hr'] at hnew
      obtain ⟨w₁, hle, ⟨rfl, rfl, hw₁, hprinted, hrequests⟩, huv⟩ := hnew
      obtain ⟨hw₂, hx⟩ := (hG.later hle).bind hw₁ huv x
      have hgrows := Grows.replace w₁ (w₁.left.set G x u) (w₁.right.set G x v)
      have hx₂ := rel_mono hx fun _ _ => hgrows.same
      have hgrows₂ : w.Grows (w₁.replace (w₁.left.set G x u) (w₁.right.set G x v)) :=
        ⟨hle.frame, hle.object, hle.left_old, hle.right_old⟩
      refine ⟨w₁.replace (w₁.left.set G x u) (w₁.right.set G x v), ⟨hgrows₂, hw₂, ?_, ?_, ?_⟩, fun _ _ => .inr hx₂⟩
      · rw [Action.run_make_ok hr]
        rfl
      · rw [Action.run_make_ok hr']
        rfl
      · rw [Action.run_make_ok hr, Action.run_make_ok hr', Action.report_make_value, Action.report_make_value]
        have hfields := fieldsOf_eq hw₂ hx₂
        exact Report.ext (congrArg Seen.value (hw₂.describe .null)) hfields hprinted hrequests
  | error stop s =>
    cases hr' : Eval.expr library n (.new className arguments) G w.right with
    | ok => simp only [hr, hr', Simulation.Agree] at hnew
    | error stop' t =>
      rw [hr, hr'] at hnew
      obtain ⟨w₁, hle₁, hstores₁, hstop⟩ := hnew
      have hthrow : Simulation.Agree (S := simulation) w₁ Simulation.values ((throw stop : Eval Value) s)
        ((throw stop' : Eval Value) t) := ⟨w₁, .refl w₁, hstores₁, hstop⟩
      obtain ⟨w₂, hle₂, ⟨hleft, hright, hw₂, hprinted, hrequests⟩, hseen⟩ := seen_eq hthrow
      have hle := hle₁.trans hle₂
      have hfields (stop : Stop) (s : Store) :
          ((Action.make x className arguments).report G (Outcome.of (throw stop) s)).fields = [] := by
        cases stop <;> rfl
      refine ⟨w₂, ⟨hle.toGrows, hw₂, ?_, ?_, ?_⟩, fun s hx => ?_⟩
      · rw [Action.run_make_error hr, hleft]
      · rw [Action.run_make_error hr', hright]
      · rw [Action.run_make_error hr, Action.run_make_error hr']
        exact Report.ext hseen ((hfields stop s).trans (hfields stop' t).symm) hprinted hrequests
      · exact hx.later hle.toGrows (hle.left.get?_of_root hG.left_has hG.left_root hG.left x)
          (hle.right.get?_of_root hG.right_has hG.right_root hG.right x)

end Actions

end Renaming

/-! ## The classes -/

/-- The frame of a separable class. -/
structure Store.Template (s : Store) (G T : FrameId) : Prop where
  has : s.HasFrame T
  root : s.parent? T = none
  separable : s.Separable T
  ne : T ≠ G

namespace Renaming

/-- The classes and what they bind, paired with themselves. -/
def classes (s : Store) (G : FrameId) : Renaming where
  left := s
  right := s
  frame E F := E = F ∧ s.Template G E
  object i j := i = j ∧ (s.Plain (.ref i) ∨ ∃ T, s.Template G T ∧ s.MadeIn T (.ref i))

variable {s : Store} {G T : FrameId} {v : Value}

theorem classes_plain (hv : s.Plain v) : (classes s G).Same v v := by
  cases v with
  | null => exact .null
  | boolean b => exact .boolean b
  | ref id => exact .ref ⟨rfl, .inl hv⟩

theorem classes_madeIn (hT : s.Template G T) (hv : s.MadeIn T v) : (classes s G).Same v v := by
  cases v with
  | null => exact .null
  | boolean b => exact .boolean b
  | ref id => exact .ref ⟨rfl, .inr ⟨T, hT, hv⟩⟩

theorem classes_object {o : Object} (hs : s.WellFormed) (ho : s.datum v = .object o) (hdata : o.IsData)
    (hparts : ∀ u ∈ o.parts, s.Plain u) : (classes s G).matching.Object o o := by
  have hpart {u : Value} (hu : u ∈ o.parts) : (classes s G).Same u u := classes_plain (hparts u hu)
  cases o with
  | integer n => exact .integer n
  | real x => exact .real x
  | text t => exact .text t
  | builtin b => exact .builtin b
  | array elements => exact .array (List.forall₂_same.2 fun u hu => hpart hu)
  | hash entries =>
    refine .hash ⟨List.forall₂_same.2 fun e he => ⟨rfl, trivial, ?_, ?_⟩, fun _ => hs.sorted ho⟩
    · exact hpart (Object.key_mem_parts he)
    · exact hpart (Object.value_mem_parts he)
  | init constructor E => exact .init constructor ⟨hs.frame ho rfl, hs.frame ho rfl⟩
  | function | inst => exact hdata.elim

theorem classes_faithful (hs : s.WellFormed) (G : FrameId) : (classes s G).Faithful where
  left := hs
  right := hs
  frame_has := by
    rintro E _ ⟨rfl, hE⟩
    exact ⟨hE.has, hE.has⟩
  object_has := by
    rintro i _ ⟨rfl, hi | ⟨T, _, literal, isPublic, hd⟩⟩
    · cases hi with
      | object ho => exact ⟨Store.hasValue_of_datum ho, Store.hasValue_of_datum ho⟩
    · exact ⟨Store.hasValue_of_datum hd, Store.hasValue_of_datum hd⟩
  frame_iff := by
    rintro E _ E' _ ⟨rfl, _⟩ ⟨rfl, _⟩
    exact Iff.rfl
  object_iff := by
    rintro i _ i' _ ⟨rfl, _⟩ ⟨rfl, _⟩
    exact Iff.rfl
  parent := by
    rintro E _ ⟨rfl, hE⟩
    show Option.Rel _ (s.parent? E) (s.parent? E)
    rw [hE.root]
    exact .none
  bindings := by
    rintro E _ ⟨rfl, hE⟩
    refine List.forall₂_same.2 fun b hb => ⟨rfl, ?_⟩
    rcases hE.separable b hb with hplain | hfunction
    · exact classes_plain hplain
    · exact classes_madeIn hE hfunction
  object := by
    rintro i _ ⟨rfl, hi | ⟨T, hT, literal, isPublic, hd⟩⟩
    · cases hi with
      | object ho hdata hparts =>
        show (classes s G).matching.Datum (s.datum (.ref i)) (s.datum (.ref i))
        rw [ho]
        exact .object (classes_object hs ho hdata hparts)
    · show (classes s G).matching.Datum (s.datum (.ref i)) (s.datum (.ref i))
      rw [hd]
      exact .object (.function literal isPublic ⟨rfl, hT⟩)

end Renaming

end Pron
