import Pron.Proofs.WellFormed

/-!
# Changes of names and of numbers

There are two ways to change what a name stands for: to bind it to another value, and to step the integer that it is
bound to. The first changes one binding, that of the nearest frame with the name or that of the root, and is seen from
wherever the name stood for that binding (`Store.Nested.scope_laws`). The second changes no binding at all but one
object, and is seen wherever the object is (`Reachable.step_renumbers`).
-/

namespace Pron

namespace Store

variable {s t : Store} {E F : FrameId} {x : String} {v w : Value} {id : ObjectId}

/-! ## Bindings -/

/-- Whatever looks for a frame is done in the frame at hand, or left to the frame around it. -/
structure Outward (s : Store) : Prop where
  get (E : FrameId) (x : String) : s.get? E x = (s.localValue? E x).or ((s.parent? E).bind (s.get? · x))
  update (E : FrameId) (x : String) (v : Value) : s.update? E x v =
    if (s.localValue? E x).isSome then some (s.set E x v) else (s.parent? E).bind (s.update? · x v)
  root (E : FrameId) : s.root E = match s.parent? E with
    | some P => s.root P
    | none => E
  rootValue (E : FrameId) (x : String) : s.rootValue? E x = match s.parent? E with
    | some P => s.rootValue? P x
    | none => s.localValue? E x
  updateRoot (E : FrameId) (x : String) (v : Value) : s.updateRoot? E x v = match s.parent? E with
    | some P => s.updateRoot? P x v
    | none => s.update? E x v

/-- Frames that lie inside of earlier ones are traversed outward. -/
theorem Nested.outward (hs : s.Nested) : s.Outward :=
  ⟨hs.get?_eq, hs.update?_eq, hs.root_eq, hs.rootValue?_eq, hs.updateRoot?_eq⟩

/-- A name that was bound in a frame has got a new value there, and what every frame sees of this. -/
structure Changed (s t : Store) (F : FrameId) (x : String) (v : Value) : Prop extends s.Rebound t F x v where
  was : (s.localValue? F x).isSome
  /-- No name is added to any frame. -/
  names (G : FrameId) (y : String) : (t.localValue? G y).isSome = (s.localValue? G y).isSome
  seen {G : FrameId} : s.Resolves x G F → t.get? G x = some v
  unseen {G : FrameId} : ¬s.Resolves x G F → t.get? G x = s.get? G x
  others {y : String} : y ≠ x → ∀ G, t.get? G y = s.get? G y

/-- Binding a name again is a change of this one name. -/
theorem Nested.changed_set (hs : s.Nested) (hx : (s.localValue? F x).isSome) (v : Value) :
    s.Changed (s.set F x v) F x v := by
  have hrebound : s.Rebound (s.set F x v) F x v := rebound_set hx
  exact ⟨hrebound, hx, hrebound.isSome_localValue? hx, fun hG => hrebound.get?_of_binder? hx (hs.binder?_eq_some.2 hG),
    fun hG => hrebound.get?_of_binder?_ne hx (mt hs.binder?_eq_some.1 hG), fun hy G => hrebound.get?_of_ne hy G⟩

/-- How one name is looked up, bound and changed, starting from one frame. -/
structure ScopeLaws (s : Store) (E : FrameId) (x : String) (v : Value) : Prop where
  get {w : Value} : s.get? E x = some w ↔ ∃ F, s.Resolves x E F ∧ s.localValue? F x = some w
  nearest {F G : FrameId} : s.Resolves x E F → s.Resolves x E G → G = F
  set : s.Rebound (s.set E x v) E x v
  set_others {y : String} : y ≠ x → ∀ G, (s.set E x v).get? G y = s.get? G y
  update : (s.update? E x v).isSome ↔ (s.get? E x).isSome
  updated {t : Store} : s.update? E x v = some t → ∃ F, s.Resolves x E F ∧ s.Changed t F x v
  root : s.Enclosed E (s.root E) ∧ s.parent? (s.root E) = none
  rootValue : s.rootValue? E x = s.localValue? (s.root E) x
  updateRoot : (s.updateRoot? E x v).isSome ↔ (s.rootValue? E x).isSome
  updatedRoot {t : Store} : s.updateRoot? E x v = some t → s.Changed t (s.root E) x v
  /-- Where there is nothing to change, an assignment fails in the store in which its value was found. -/
  unchanged {rec : Expr → FrameId → Eval Value} {value : Expr} {r : Store} : rec value E r = .ok v s →
    s.update? E x v = none → Eval.assign rec (.name x) value E r = .error (.failed (.notDefined x)) s
  unchangedRoot {rec : Expr → FrameId → Eval Value} {value : Expr} {r : Store} : rec value E r = .ok v s →
    s.updateRoot? E x v = none → Eval.assign rec (.thisName x) value E r = .error (.failed (.notDefinedThis x)) s

/-- An assignment is possible exactly where the name is found. -/
theorem isSome_update? : (s.update? E x v).isSome ↔ (s.get? E x).isSome := by
  rw [isSome_get?, update?, Option.isSome_map]

theorem isSome_updateRoot? : (s.updateRoot? E x v).isSome ↔ (s.rootValue? E x).isSome := by
  unfold updateRoot?
  split
  · next hx => exact iff_of_true rfl hx
  · next hx => exact iff_of_false nofun hx

/-- **Names in scopes.** In a store of frames that form trees, the ways outward are steps from frame to frame, and all
of them meet the same frames: a name is changed where it is found, in one frame and no other, and the change is seen
from every frame from which the name was found there, and from no other. -/
theorem Nested.scope_laws (hs : s.Nested) :
    s.Outward ∧ ∀ E, s.HasFrame E → ∀ x v, s.ScopeLaws E x v := by
  refine ⟨hs.outward, fun E hE x v => ?_⟩
  have hset : s.Rebound (s.set E x v) E x v := .of_set hE
  have hupdated {t : Store} (ht : s.update? E x v = some t) : ∃ F, s.Resolves x E F ∧ s.Changed t F x v := by
    obtain ⟨F, hF, rfl⟩ := Option.map_eq_some_iff.1 ht
    exact ⟨F, hs.binder?_eq_some.1 hF, hs.changed_set (bound_of_binder? hF) v⟩
  have hupdatedRoot {t : Store} (ht : s.updateRoot? E x v = some t) : s.Changed t (s.root E) x v := by
    unfold updateRoot? at ht
    split at ht
    · next hx =>
      cases ht
      exact hs.changed_set hx v
    · cases ht
  refine ⟨hs.get?_eq_some, fun hF hG => hF.unique hs hG, hset, fun hy G => hset.get?_of_ne hy G, isSome_update?,
    hupdated, hs.enclosed_root E, rfl, isSome_updateRoot?, hupdatedRoot, fun hv hnone => ?_, fun hv hnone => ?_⟩
  · refine (Eval.bind_of_ok hv).trans ?_
    rw [Eval.get_bind, hnone]
    rfl
  · refine (Eval.bind_of_ok hv).trans ?_
    rw [Eval.get_bind, hnone]
    rfl

/-- A root that binds `x`, a frame inside it that binds `x` as well, a frame inside that one, and another inside the
root. -/
def shadowing : Store :=
  let root := (empty.newFrame ⟨none, [("x", .boolean true)]⟩).2
  let inner := (root.newFrame ⟨some ⟨0⟩, [("x", .boolean false)]⟩).2
  ((inner.newChild ⟨1⟩).2.newChild ⟨0⟩).2

theorem shadowing_scopes :
    shadowing.Nested ∧ shadowing.HasFrame ⟨2⟩ ∧ shadowing.Outward ∧ shadowing.ScopeLaws ⟨2⟩ "x" .null ∧
      (shadowing.update? ⟨2⟩ "x" .null).map (fun t => [t.get? ⟨2⟩ "x", t.get? ⟨1⟩ "x", t.get? ⟨3⟩ "x"]) =
        some [some .null, some .null, some (.boolean true)] ∧
      (shadowing.updateRoot? ⟨2⟩ "x" .null).map (fun t => [t.get? ⟨2⟩ "x", t.get? ⟨1⟩ "x", t.get? ⟨3⟩ "x"]) =
        some [some (.boolean false), some (.boolean false), some .null] := by
  have hroot := nested_empty.newFrame (f := ⟨none, [("x", .boolean true)]⟩) nofun
  have hinner := hroot.newFrame (f := ⟨some ⟨0⟩, [("x", .boolean false)]⟩)
    fun _ hP => Option.some.inj hP ▸ Nat.zero_lt_one
  have hinmost := hinner.newFrame (f := ⟨some ⟨1⟩, []⟩) fun _ hP => Option.some.inj hP ▸ Nat.one_lt_two
  have hnested : shadowing.Nested := hinmost.newFrame fun _ hP => Option.some.inj hP ▸ Nat.zero_lt_succ 2
  have hframe : shadowing.HasFrame ⟨2⟩ := Nat.le_succ 3
  obtain ⟨houtward, hlaws⟩ := hnested.scope_laws
  exact ⟨hnested, hframe, houtward, hlaws ⟨2⟩ hframe "x" .null, by decide, by decide⟩

/-! ## Integers -/

/-- The value `v`, an integer, has got the number `m`, and what is seen of this. -/
structure Renumbered (s t : Store) (v : Value) (m : Int64) : Prop where
  cell : t.datum v = .object (.integer m)
  text : t.display v = Integer.text m
  /-- Every other object is as before. -/
  object {w : Value} : w ≠ v → t.datum w = s.datum w
  /-- Every binding of every frame is as before. -/
  frames : t.frames = s.frames
  get (E : FrameId) (x : String) : t.get? E x = s.get? E x
  /-- Arrays and hashes hold the values that they held, and show what these show now. -/
  array {w : Value} {elements : List Value} : s.datum w = .object (.array elements) →
    t.datum w = .object (.array elements) ∧ t.display w = "[" ++ Render.commas (elements.map t.display) ++ "]"
  hash {w : Value} {entries : List HashEntry} : s.datum w = .object (.hash entries) →
    t.datum w = .object (.hash entries) ∧ t.display w =
      Render.braces (Render.commas (entries.map fun e => t.display e.key ++ ": " ++ t.display e.value))
  printed : t.printed = s.printed
  requests : t.requests = s.requests

/-- The text of an integer is the text of its number. -/
theorem display_integer {m : Int64} (h : s.datum v = .object (.integer m)) : s.display v = Integer.text m := by
  cases v with
  | null | boolean => cases h
  | ref id =>
    show s.displayUpTo (id.index + 1 + 1) (.ref id) = _
    unfold displayUpTo
    rw [h]

theorem WellFormed.renumbered_write (hs : s.WellFormed) {k : Int64} (hk : s.datum (.ref id) = .object (.integer k))
    (m : Int64) : s.Renumbered (s.write id (.integer m)) (.ref id) m := by
  have ht := hs.writeInteger hk m
  have hcell : (s.write id (.integer m)).datum (.ref id) = .object (.integer m) :=
    datum_write_self (hasValue_of_datum hk)
  have hother {w : Value} {o : Object} (hw : s.datum w = .object o) (ho : o.type ≠ .integer) :
      (s.write id (.integer m)).datum w = .object o := by
    refine (datum_write_of_ne ?_).trans hw
    rintro rfl
    rw [hk] at hw
    cases hw
    exact ho rfl
  exact {
    cell := hcell
    text := display_integer hcell
    object := datum_write_of_ne
    frames := rfl
    get := fun _ _ => get?_congr rfl
    array := fun hw => ⟨hother hw nofun, ht.display_array (hother hw nofun)⟩
    hash := fun hw => ⟨hother hw nofun, ht.display_hash (hother hw nofun)⟩
    printed := rfl
    requests := rfl }

end Store

namespace Eval

/-- The number after a step, modulo `2 ^ 64`. -/
theorem toInt_step (k : Int64) (up : Bool) :
    (if up then k + 1 else k - 1).toInt = (k.toInt + if up then 1 else -1).bmod Int64.size := by
  cases up with
  | true => exact Int64.toInt_add k 1
  | false => exact Int64.toInt_sub k 1

end Eval

/-- **Steps of integers.** If a name stands for an integer, then `x++` and `x--` give that integer itself, with its next
number modulo `2 ^ 64`; this is seen wherever the integer is, and nothing else changes. If it stands for anything else,
or for nothing, they fail and nothing changes. -/
theorem Reachable.step_renumbers {s : Store} (h : Reachable s) (library : Library) (n : Nat) (E : FrameId) (x : String)
    (up : Bool) :
    let r := Eval.expr library (n + 1) (if up then .increment x else .decrement x) E s
    (∀ v k, s.get? E x = some v → s.datum v = .object (.integer k) → ∃ m t,
      m.toInt = (k.toInt + if up then 1 else -1).bmod Int64.size ∧ r = .ok v t ∧ s.Renumbered t v m) ∧
    (s.get? E x = none → r = .error (.failed (.notDefined x)) s) ∧
    ∀ v, s.get? E x = some v → (∀ k, s.datum v ≠ .object (.integer k)) →
      r = .error (.failed (.unknownStep (s.datum v).type up)) s := by
  have hstep : Eval.expr library (n + 1) (if up then .increment x else .decrement x) E s = Eval.step x up E s := by
    cases up <;> rfl
  dsimp only
  rw [hstep]
  refine ⟨fun v k hget hk => ?_, fun hget => Eval.step_of_unbound hget up,
    fun v hget hv => Eval.step_of_other hget hv up⟩
  cases v with
  | null | boolean => cases hk
  | ref id => exact ⟨_, _, Eval.toInt_step k up, Eval.step_of_integer hget hk up, h.wellFormed.renumbered_write hk _⟩

/-- The store after `var x = 9223372036854775807; var a = [x]; var h = {1: x};`. -/
def greatest : Store :=
  (Outcome.of (Eval.program (Eval.expr (Library.ofUnits []) 3)
    [.var "x" (.integer Int64.maxValue), .var "a" (.array [.name "x"]), .var "h" (.hash [⟨.integer 1, .name "x"⟩])]
    Session.start.frame) Session.start.store).2

theorem greatest_renumbers :
    Reachable greatest ∧ greatest.get? ⟨0⟩ "x" = some (.ref ⟨0⟩) ∧
      greatest.datum (.ref ⟨0⟩) = .object (.integer Int64.maxValue) ∧
      ∃ m t, m.toInt = Int64.minValue.toInt ∧
        Eval.expr (Library.ofUnits []) 1 (.increment "x") ⟨0⟩ greatest = .ok (.ref ⟨0⟩) t ∧
        greatest.Renumbered t (.ref ⟨0⟩) m := by
  have hreach : Reachable greatest := Reachable.program .start _ _ _
  have hget : greatest.get? ⟨0⟩ "x" = some (.ref ⟨0⟩) := by decide +kernel
  have hx : greatest.datum (.ref ⟨0⟩) = .object (.integer Int64.maxValue) := rfl
  obtain ⟨m, t, hm, hr, ht⟩ := (hreach.step_renumbers (Library.ofUnits []) 0 ⟨0⟩ "x" true).1 (.ref ⟨0⟩) _ hget hx
  exact ⟨hreach, hget, hx, m, t, hm, hr, ht⟩

end Pron
