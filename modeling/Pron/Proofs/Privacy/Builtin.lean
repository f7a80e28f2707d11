import Pron.Proofs.Privacy.Twin

/-!
# Operators and built-in functions in two runs

None of them looks into a function or a constructor, so operators give the same answer in both stores
(`Secret.Stores.binary`, `Secret.Stores.index`), and calls of built-in functions are twins (`Secret.Twin.call`).
-/

namespace Pron

namespace Secret

variable {S : Secret} {w : World} {s t : Store} {u v : Value} {d e : Datum} {us : List Value}

namespace AlikeDatum

variable (h : S.AlikeDatum w d e)

include h

theorem type_eq : e.type = d.type := by
  cases h with
  | null | boolean => rfl
  | object h => cases h <;> rfl

theorem isTruthy_eq : e.isTruthy = d.isTruthy := by cases h <;> rfl

/-- Functions and instances are no keys, on either side. -/
theorem keyContent?_eq : e.keyContent? = d.keyContent? := by
  cases h with
  | null | boolean => rfl
  | object h => cases h <;> rfl

theorem asReal?_eq : Operator.asReal? e = Operator.asReal? d := by
  cases h with
  | null | boolean => rfl
  | object h => cases h <;> rfl

/-- What is no function is none in the other store. -/
theorem not_function (hd : ∀ closure, d ≠ .object (.function closure)) (closure : Closure) :
    e ≠ .object (.function closure) := by
  rintro rfl
  cases h with
  | object ho =>
    cases ho with
    | data => exact hd _ rfl
    | function => exact hd _ rfl

/-- What is no instance in the one run is none in the other. -/
theorem not_inst (hd : ∀ className I, d ≠ .object (.inst className I)) (className : String) (I : FrameId) :
    e ≠ .object (.inst className I) := by
  rintro rfl
  cases h with
  | object ho =>
    cases ho with
    | data => exact hd _ _ rfl
    | inst => exact hd _ _ rfl

end AlikeDatum

/-- The other run has a function for a function, made in the same frame, with an alike text. -/
theorem AlikeDatum.function {f : FunctionLit} {F : FrameId} {isPublic : Bool}
    (h : S.AlikeDatum w (.object (.function ⟨f, F, isPublic⟩)) e) :
    ∃ f' side, e = .object (.function ⟨f', F, isPublic⟩) ∧ S.AlikeFunction f f' ∧ w.frame side F ∧
      S.Permits side f.mentions := by
  cases h with
  | object ho =>
    cases ho with
    | data hframe => cases hframe
    | function _ hf hF hm => exact ⟨_, _, rfl, hf, hF, hm⟩

/-- The other run has the same instance. -/
theorem AlikeDatum.inst {className : String} {I : FrameId} (h : S.AlikeDatum w (.object (.inst className I)) e) :
    ∃ side, e = .object (.inst className I) ∧ w.frame side I := by
  cases h with
  | object ho =>
    cases ho with
    | data hframe => cases hframe
    | inst _ hI => exact ⟨_, rfl, hI⟩

/-! ## Operators -/

/-- What an operator gives is a number, a text or a truth value, which is alike to itself. -/
theorem scalar_integers {op : BinaryOp} {m n : Int64} (h : Operator.integers op m n = .ok d) : S.AlikeDatum w d d := by
  unfold Operator.integers at h
  cases op with
  | add | sub | mul =>
    cases h
    exact .object (.scalar rfl rfl)
  | div | mod =>
    dsimp only at h
    split at h
    · cases h
    · cases h
      exact .object (.scalar rfl rfl)
  | lt | gt | eq | ne =>
    cases h
    exact .boolean _
  | assign => cases h

theorem scalar_reals {op : BinaryOp} {x y : Float} (h : Operator.reals op x y = .ok d) : S.AlikeDatum w d d := by
  cases op with
  | add | sub | mul | div | mod =>
    cases h
    exact .object (.scalar rfl rfl)
  | lt | gt | eq | ne =>
    cases h
    exact .boolean _
  | assign => cases h

theorem scalar_texts {op : BinaryOp} {a b : String} (h : Operator.texts op a b = .ok d) : S.AlikeDatum w d d := by
  cases op with
  | add =>
    cases h
    exact .object (.scalar rfl rfl)
  | eq | ne =>
    cases h
    exact .boolean _
  | _ => cases h

theorem scalar_mixed {op : BinaryOp} {a b : Datum} (h : Operator.mixed op u v a b = .ok d) : S.AlikeDatum w d d := by
  unfold Operator.mixed at h
  split at h
  · exact scalar_reals h
  · split at h
    · cases op with
      | eq | ne =>
        cases h
        exact .boolean _
      | _ => cases h
    · cases h

/-- The same for all operators between two operands. -/
theorem scalar_binary {op : BinaryOp} (h : Operator.binary s op u v = .ok d) : S.AlikeDatum w d d := by
  unfold Operator.binary at h
  split at h
  · exact scalar_texts h
  · exact scalar_integers h
  · exact scalar_mixed h

/-- The same for the prefix operators. -/
theorem scalar_unary {op : UnaryOp} {a : Datum} (h : Operator.unary op a = .ok d) : S.AlikeDatum w d d := by
  unfold Operator.unary at h
  split at h
  · cases h
    exact .boolean _
  · cases h
    exact .object (.scalar rfl rfl)
  · cases h
    exact .object (.scalar rfl rfl)
  · cases h

/-- Prefix operators do not tell alike data apart. -/
theorem AlikeDatum.unary (h : S.AlikeDatum w d e) (op : UnaryOp) : Operator.unary op e = Operator.unary op d := by
  cases op with
  | not => rw [Operator.unary, Operator.unary, h.isTruthy_eq]
  | negate =>
    cases h with
    | null | boolean => rfl
    | object h => cases h <;> rfl

/-- Nor do operators between two operands. -/
theorem AlikeDatum.mixed {a b : Datum} (h : S.AlikeDatum w d e) (h' : S.AlikeDatum w a b) (op : BinaryOp) :
    Operator.mixed op u v e b = Operator.mixed op u v d a := by
  unfold Operator.mixed
  rw [h.asReal?_eq, h'.asReal?_eq, h.type_eq, h'.type_eq]

namespace Stores

variable (hs : S.Stores w s t) (hu : w.Value u) (hv : w.Value v)

include hs hu hv

/-- Operators give the same answer in both runs. -/
theorem binary (op : BinaryOp) : Operator.binary t op u v = Operator.binary s op u v := by
  have hd := hs.datum hu
  have he := hs.datum hv
  have rest := hd.mixed he (u := u) (v := v) op
  unfold Operator.binary
  generalize s.datum u = d at hd rest
  generalize t.datum u = d' at hd rest
  generalize s.datum v = e at he rest
  generalize t.datum v = e' at he rest
  cases hd with
  | null | boolean => exact rest
  | @object o _ ho =>
    cases ho with
    | function | inst | init => exact rest
    | data =>
      cases he with
      | null | boolean => rfl
      | object ho' =>
        cases ho' with
        | data => rfl
        | _ => cases o <;> exact rest

/-- A lookup in an array or hash gives the same answer in both runs. -/
theorem index : Operator.index t u v = Operator.index s u v := by
  have hd := hs.datum hu
  have he := hs.datum hv
  unfold Operator.index
  generalize s.datum u = d at hd
  generalize t.datum u = d' at hd
  generalize s.datum v = e at he
  generalize t.datum v = e' at he
  cases hd with
  | null | boolean => rfl
  | @object o _ ho =>
    cases ho with
    | function | inst | init => rfl
    | data =>
      cases o with
      | array elements =>
        cases he with
        | null | boolean => rfl
        | object ho' => cases ho' <;> rfl
      | hash entries =>
        dsimp only
        rw [he.keyContent?_eq, he.type_eq]
      | _ => rfl

end Stores

section Parts

variable {elements : List Value} (h : ∀ u ∈ elements, w.Value u)

include h

/-- The element at a position is within reach, or it is `null`. -/
theorem value_getD (n : Nat) : w.Value (elements[n]?.getD .null) := by
  cases hv : elements[n]? with
  | none => trivial
  | some v => exact h v (List.mem_of_getElem? hv)

theorem value_head? : w.Value (elements.head?.getD .null) := by
  rw [List.head?_eq_getElem?]
  exact value_getD h 0

theorem value_getLast? : w.Value (elements.getLast?.getD .null) := by
  rw [List.getLast?_eq_getElem?]
  exact value_getD h _

theorem value_element (i : Int64) : w.Value (Operator.element elements i) := by
  unfold Operator.element
  split
  · exact value_getD h _
  · trivial

end Parts

/-- The value of an entry is within reach, or it is `null`. -/
theorem value_find? {entries : List HashEntry} (h : ∀ e ∈ entries, w.Value e.value) (content : HashKey) :
    w.Value (((Entries.find? content entries).map HashEntry.value).getD .null) := by
  cases he : Entries.find? content entries with
  | none => trivial
  | some e => exact h e (List.mem_of_find?_eq_some he)

/-- A hash is the same in both runs, and what it holds is within reach. -/
theorem AlikeObject.entries {entries : List HashEntry} {o : Object} (h : S.AlikeObject w (.hash entries) o) :
    o = .hash entries ∧ ∀ e ∈ entries, w.Value e.key ∧ w.Value e.value := by
  cases h with
  | data _ hparts =>
    exact ⟨rfl, fun e he => ⟨hparts _ (Object.key_mem_parts he), hparts _ (Object.value_mem_parts he)⟩⟩

/-- What a container holds is within reach when the container is. -/
theorem Stores.index_value (hs : S.Stores w s t) (hu : w.Value u) {r : Value} (h : Operator.index s u v = .ok r) :
    w.Value r := by
  have hd := hs.datum hu
  unfold Operator.index at h
  generalize s.datum u = d at hd h
  generalize t.datum u = d' at hd
  split at h
  · cases h
    cases hd with
    | object ho =>
      cases ho with
      | data _ hparts => exact value_element hparts _
  · cases hd with
    | object ho =>
      split at h
      · cases h
        exact value_find? (fun e he => (ho.entries.2 e he).2) _
      · cases h
  · cases h

/-! ## Built-in functions -/

namespace Twin

variable {α : Type} {R : World → α → Prop}

/-- The same answer is a twin of itself if what it gives is within reach. -/
theorem ofExcept {a : Except RuntimeError α} (h : ∀ r, a = .ok r → R w r) :
    S.Twin w R (Eval.ofExcept a) (Eval.ofExcept a) := by
  cases a with
  | ok r => exact pure (h r rfl)
  | error e => exact fail e

/-- Both runs get the same elements, or the same error. -/
theorem elementsOf (b : Builtin) (hv : w.Value v) :
    S.Twin w (fun w' us => ∀ u ∈ us, w'.Value u) (b.elementsOf v) (b.elementsOf v) := by
  refine datum hv fun d d' hd => ?_
  cases hd with
  | null | boolean => exact fail _
  | @object o _ ho =>
    cases ho with
    | data _ hparts =>
      cases o with
      | array => exact pure hparts
      | _ => exact fail _
    | _ => exact fail _

theorem lenOf (hv : w.Value v) : S.Twin w World.Value (Builtin.lenOf v) (Builtin.lenOf v) := by
  refine datum hv fun d d' hd => ?_
  cases hd with
  | null | boolean => exact fail _
  | @object o _ ho =>
    cases ho with
    | data =>
      cases o with
      | array | hash | text => exact alloc (.scalar rfl rfl)
      | _ => exact fail _
    | _ => exact fail _

/-- The rest of an array is a new array in both runs. -/
theorem restOf (hus : ∀ u ∈ us, w.Value u) : S.Twin w World.Value (Builtin.restOf us) (Builtin.restOf us) := by
  cases us with
  | nil => exact pure trivial
  | cons u us => exact alloc (.data rfl (List.forall_mem_cons.1 hus).2)

/-- The entries with one more. -/
theorem values_insert {entries : List HashEntry} (h : ∀ e ∈ entries, w.Value e.key ∧ w.Value e.value)
    (content : HashKey) {k : Value} (hk : w.Value k) (hv : w.Value v) :
    ∀ e ∈ Entries.insert ⟨content, k, v⟩ entries, w.Value e.key ∧ w.Value e.value := by
  intro e he
  rcases Entries.mem_insert he with rfl | he
  · exact ⟨hk, hv⟩
  · exact h e he

/-- Adding makes the same new container in both runs. -/
theorem addTo (hv : w.Value v) (hus : ∀ u ∈ us, w.Value u) :
    S.Twin w World.Value (Builtin.addTo v us) (Builtin.addTo v us) := by
  refine datum hv fun d d' hd => ?_
  cases hd with
  | null | boolean => exact fail _
  | @object o _ ho =>
    cases ho with
    | data hframe hparts =>
      cases o with
      | array elements =>
        match us, hus with
        | [], _ => exact fail _
        | [u], hus =>
          refine alloc (.data rfl fun e he => ?_)
          rcases List.mem_append.1 he with he | he
          · exact hparts e he
          · exact hus e he
        | _ :: _ :: _, _ => exact fail _
      | hash entries =>
        match us, hus with
        | [], _ => exact fail _
        | [_], _ => exact fail _
        | [k, u], hus =>
          obtain ⟨hk, hu⟩ := List.forall_mem_cons.1 hus
          have hentries := (AlikeObject.data (S := S) hframe hparts).entries.2
          refine datum hk fun d d' hd => ?_
          rw [hd.keyContent?_eq, hd.type_eq]
          split
          · exact alloc (.hash (values_insert hentries _ hk (hu u List.mem_cons_self)))
          · exact fail _
        | _ :: _ :: _ :: _, _ => exact fail _
      | function | inst | init => cases hframe
      | _ => exact fail _
    | _ => exact fail _

/-- The array without an element is new in both runs. -/
theorem removeElement (hus : ∀ u ∈ us, w.Value u) (hv : w.Value v) :
    S.Twin w World.Value (Builtin.removeElement us v) (Builtin.removeElement us v) := by
  unfold Builtin.removeElement
  dsimp only
  split
  · exact fail_bind _
  · refine datum hv fun d d' hd => ?_
    cases hd with
    | null | boolean => exact fail _
    | @object o _ ho =>
      cases ho with
      | data =>
        cases o with
        | integer i =>
          dsimp only
          split
          · exact alloc (.data rfl fun u hu => hus u (List.mem_of_mem_eraseIdx hu))
          · exact fail _
        | _ => exact fail _
      | _ => exact fail _

/-- The hash that loses an entry is the same in both stores. -/
theorem removeEntry {id : ObjectId} {entries : List HashEntry} (hs : S.Stores w s t) (hid : w.Value (.ref id))
    (hsv : s.datum (.ref id) = .object (.hash entries)) (hentries : ∀ e ∈ entries, w.Value e.key ∧ w.Value e.value)
    (hv : w.Value v) :
    S.Agree w World.Value (Builtin.removeEntry id entries v s) (Builtin.removeEntry id entries v t) := by
  unfold Builtin.removeEntry
  dsimp only
  split
  · exact fail_bind _ hs
  · rw [Eval.datum_bind, Eval.datum_bind]
    have hd := hs.datum hv
    rw [hd.keyContent?_eq, hd.type_eq]
    cases (s.datum v).keyContent? with
    | none => exact fail _ hs
    | some content =>
      dsimp only
      split
      · refine .ok (.refl w) (hs.write hsv rfl (.hash fun e he => hentries e ?_)) hid
        exact (List.mem_filter.1 he).1
      · exact fail _ hs

/-- The `remove` of an array makes a new one, that of a hash changes the hash, in both runs. -/
theorem removeFrom (hu : w.Value u) (hv : w.Value v) :
    S.Twin w World.Value (Builtin.removeFrom u v) (Builtin.removeFrom u v) := by
  intro s t hs
  have hd := hs.datum hu
  unfold Builtin.removeFrom
  rw [Eval.datum_bind, Eval.datum_bind]
  generalize hsu : s.datum u = d at hd
  generalize t.datum u = d' at hd
  cases hd with
  | null | boolean => exact fail _ hs
  | @object o _ ho =>
    cases ho with
    | data hframe hparts =>
      cases o with
      | array elements => exact removeElement hparts hv hs
      | hash entries =>
        -- only a reference refers to a hash
        cases u with
        | null | boolean => cases hsu
        | ref id => exact removeEntry hs hu hsu (AlikeObject.data (S := S) hframe hparts).entries.2 hv
      | function | inst | init => cases hframe
      | _ => exact fail _ hs
    | _ => exact fail _ hs

/-- What is printed differs in shown functions at most. -/
theorem printAll (hus : ∀ u ∈ us, w.Value u) :
    S.Twin w World.Value (Builtin.printAll us) (Builtin.printAll us) := by
  refine bind (R := done) (fun s t hs => ?_) fun _ _ _ _ => pure trivial
  exact .ok (.refl w) (hs.print (.join fun u hu => .append (hs.display (hus u hu)) (.same _))) trivial

/-- Calls of built-in functions. -/
theorem call (b : Builtin) (hus : ∀ u ∈ us, w.Value u) : S.Twin w World.Value (b.call us) (b.call us) := by
  match us, hus with
  | [], _ => cases b with
    | print => exact printAll nofun
    | _ => exact fail _
  | [v], hus =>
    have hv := hus v List.mem_cons_self
    cases b with
    | len => exact lenOf hv
    | first => exact (elementsOf _ hv).bind fun w' us _ hus => pure (value_head? hus)
    | last => exact (elementsOf _ hv).bind fun w' us _ hus => pure (value_getLast? hus)
    | rest => exact (elementsOf _ hv).bind fun w' us _ hus => restOf hus
    | add => exact addTo hv nofun
    | remove => exact fail _
    | print => exact printAll hus
  | v :: u :: us, hus =>
    obtain ⟨hv, hrest⟩ := List.forall_mem_cons.1 hus
    cases b with
    | add => exact addTo hv hrest
    | print => exact printAll hus
    | remove => cases us with
      | nil => exact removeFrom hv (hrest u List.mem_cons_self)
      | cons => exact fail _
    | _ => exact fail _

end Twin

end Secret

end Pron
