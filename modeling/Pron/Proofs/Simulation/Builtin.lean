import Pron.Proofs.Simulation

/-!
# Operators and built-in functions under a simulation

Operators on corresponding values give the same answer (`Matching.binary`, `Matching.index`), and built-in functions
called with corresponding arguments follow each other (`Simulation.Follows.call`). None of them looks at a reference
itself, but for the comparison of two values and for `remove`, which changes the hash that it is given.
-/

namespace Pron

namespace Matching

variable {M : Matching} {α β : Type}

/-- Answers that correspond, or the same error. -/
inductive Answer (r : α → β → Prop) : Except RuntimeError α → Except RuntimeError β → Prop
  | ok {a : α} {b : β} : r a b → Answer r (.ok a) (.ok b)
  | error (e : RuntimeError) : Answer r (.error e) (.error e)

/-! ## Operators -/

/-- Two integers give a number, a truth value or an error, whatever corresponds to what. -/
theorem integers (op : BinaryOp) (l r : Int64) :
    Answer M.Datum (Operator.integers op l r) (Operator.integers op l r) := by
  cases op with
  | add | sub | mul => exact .ok (.object (.integer _))
  | div | mod =>
    unfold Operator.integers
    dsimp only
    split
    · exact .error _
    · exact .ok (.object (.integer _))
  | lt | gt | eq | ne => exact .ok (.boolean _)
  | assign => exact .error _

theorem reals (op : BinaryOp) (l r : Float) : Answer M.Datum (Operator.reals op l r) (Operator.reals op l r) := by
  cases op with
  | add | sub | mul | div | mod => exact .ok (.object (.real _))
  | lt | gt | eq | ne => exact .ok (.boolean _)
  | assign => exact .error _

theorem texts (op : BinaryOp) (l r : String) : Answer M.Datum (Operator.texts op l r) (Operator.texts op l r) := by
  cases op with
  | add => exact .ok (.object (.text _))
  | eq | ne => exact .ok (.boolean _)
  | _ => exact .error _

/-- Values that are no numbers or texts are only compared with each other. -/
theorem others (op : BinaryOp) {u v u' v' : Value} (h : u = u' ↔ v = v') (type : DataType) :
    Answer M.Datum (Operator.others op u u' type) (Operator.others op v v' type) := by
  have hd : decide (u = u') = decide (v = v') := decide_eq_decide.2 h
  cases op with
  | eq => simp only [Operator.others, hd]; exact .ok (.boolean _)
  | ne => simp only [Operator.others, ne_eq, decide_not, hd]; exact .ok (.boolean _)
  | _ => exact .error _

/-- The operators look at the kinds of their operands, and for two integers, numbers or texts at these. -/
theorem mixed (op : BinaryOp) {u v u' v' : Value} {d e d' e' : Pron.Datum} (hd : M.Datum d e) (hd' : M.Datum d' e')
    (h : u = u' ↔ v = v') : Answer M.Datum (Operator.mixed op u u' d d') (Operator.mixed op v v' e e') := by
  unfold Operator.mixed
  rw [hd.asReal?_eq, hd'.asReal?_eq, hd.type_eq, hd'.type_eq]
  split
  · exact reals op _ _
  · split
    · exact others op h _
    · exact .error _

/-- A prefix operator looks at its operand as a number or as a condition. -/
theorem unary (op : UnaryOp) {d e : Pron.Datum} (h : M.Datum d e) :
    Answer M.Datum (Operator.unary op d) (Operator.unary op e) := by
  cases op with
  | not =>
    simp only [Operator.unary, h.isTruthy_eq]
    exact .ok (.boolean _)
  | negate =>
    cases h with
    | null | boolean => exact .error _
    | object h =>
      cases h with
      | integer => exact .ok (.object (.integer _))
      | real => exact .ok (.object (.real _))
      | _ => exact .error _

/-- The same position of corresponding arrays, or `null` outside of both. -/
theorem element {us vs : List Value} (hn : M.value .null .null) (h : List.Forall₂ M.value us vs) (i : Int64) :
    M.value (Operator.element us i) (Operator.element vs i) := by
  unfold Operator.element
  split
  · generalize i.toInt.toNat = n
    induction h generalizing n with
    | nil => exact hn
    | cons h _ ih =>
      cases n with
      | zero => exact h
      | succ n => exact ih n
  · exact hn

end Matching

namespace Simulation

open Matching (Answer)

variable {S : Simulation} {w : S.World} {s t : Store} {u v u' v' : Value} {α β : Type}

/-- Operators look at nothing but what the values refer to, and whether they are the same. -/
theorem binary (hs : S.stores w s t) (op : BinaryOp) (h : (S.matching w).value u v)
    (h' : (S.matching w).value u' v') :
    Answer (S.matching w).Datum (Operator.binary s op u u') (Operator.binary t op v v') := by
  have hd := S.datum hs h
  have hd' := S.datum hs h'
  have hiff := S.value_eq_iff hs h h'
  unfold Operator.binary
  generalize s.datum u = d at hd
  generalize t.datum v = e at hd
  generalize s.datum u' = d' at hd'
  generalize t.datum v' = e' at hd'
  have rest := Matching.mixed op hd hd' hiff
  cases hd with
  | null | boolean => exact rest
  | object ho =>
    cases ho with
    | text =>
      cases hd' with
      | null | boolean => exact rest
      | object ho' =>
        cases ho' with
        | text => exact Matching.texts op _ _
        | _ => exact rest
    | integer =>
      cases hd' with
      | null | boolean => exact rest
      | object ho' =>
        cases ho' with
        | integer => exact Matching.integers op _ _
        | _ => exact rest
    | _ => exact rest

/-- Arrays are looked up by position, hashes by what the key is filed under. -/
theorem index (hs : S.stores w s t) (h : (S.matching w).value u v) (h' : (S.matching w).value u' v') :
    Answer (S.matching w).value (Operator.index s u u') (Operator.index t v v') := by
  have hd := S.datum hs h
  have hd' := S.datum hs h'
  unfold Operator.index
  generalize s.datum u = d at hd
  generalize t.datum v = e at hd
  generalize s.datum u' = d' at hd'
  generalize t.datum v' = e' at hd'
  cases hd with
  | null | boolean => exact .error _
  | object ho =>
    cases ho with
    | array hvs =>
      cases hd' with
      | null | boolean => exact .error _
      | object ho' =>
        cases ho' with
        | integer => exact .ok (Matching.element (S.null w) hvs _)
        | _ => exact .error _
    | hash hes =>
      dsimp only
      rw [← hd'.keyContent?_eq, ← hd'.type_eq]
      split
      · rename_i content _
        refine .ok ?_
        rcases rel_cases (hes.find? content) with ⟨h₁, h₂⟩ | ⟨x, y, h₁, h₂, hxy⟩
        · rw [h₁, h₂]; exact S.null w
        · rw [h₁, h₂]; exact hxy.value
      · exact .error _
    | _ => exact .error _

/-! ## Built-in functions -/

namespace Follows

variable {R : S.World → α → β → Prop} {us vs : List Value}

/-- Answers that correspond can be given. -/
theorem ofExcept {a : Except RuntimeError α} {b : Except RuntimeError β} (h : Answer (R w) a b) :
    Follows w R (Eval.ofExcept a) (Eval.ofExcept b) := by
  cases h with
  | ok h => exact pure h
  | error e => exact fail e

/-- Corresponding arrays have corresponding elements, and all else is refused alike. -/
theorem elementsOf (b : Builtin) (h : (S.matching w).value u v) :
    Follows w (fun w => List.Forall₂ (S.matching w).value) (b.elementsOf u) (b.elementsOf v) := by
  refine datum h fun d e hd => ?_
  cases hd with
  | null | boolean => exact fail _
  | object ho =>
    cases ho with
    | array h => exact pure h
    | _ => exact fail _

/-- Corresponding containers have equally many elements. -/
theorem lenOf (h : (S.matching w).value u v) : Follows w values (Builtin.lenOf u) (Builtin.lenOf v) := by
  refine datum h fun d e hd => ?_
  cases hd with
  | null | boolean => exact fail _
  | object ho =>
    cases ho with
    | array h => dsimp only; rw [h.length_eq]; exact alloc (.integer _)
    | hash h => dsimp only; rw [h.length_eq]; exact alloc (.integer _)
    | text => exact alloc (.integer _)
    | _ => exact fail _

theorem restOf (h : List.Forall₂ (S.matching w).value us vs) :
    Follows w values (Builtin.restOf us) (Builtin.restOf vs) := by
  cases h with
  | nil => exact pure (S.null w)
  | cons _ h => exact alloc (.array h)

/-- Adding makes a new container, which corresponds to the other new one. -/
theorem addTo (h : (S.matching w).value u v) (hus : List.Forall₂ (S.matching w).value us vs) :
    Follows w values (Builtin.addTo u us) (Builtin.addTo v vs) := by
  refine datum h fun d e hd => ?_
  have hlen := hus.length_eq
  cases hd with
  | null | boolean => exact fail _
  | object ho =>
    cases ho with
    | array hes =>
      cases hus with
      | nil => exact fail _
      | cons h₁ hus =>
        cases hus with
        | nil => exact alloc (.array (List.rel_append hes (.cons h₁ .nil)))
        | cons => dsimp only; rw [hlen]; exact fail _
    | hash hes =>
      cases hus with
      | nil => exact fail _
      | cons h₁ hus =>
        cases hus with
        | nil => exact fail _
        | cons h₂ hus =>
          cases hus with
          | cons => dsimp only; rw [hlen]; exact fail _
          | nil =>
            refine key h₁ fun d e hd hfiled => ?_
            rw [← hd.keyContent?_eq, ← hd.type_eq]
            split
            · rename_i content hc
              exact alloc (.hash (hes.insert ⟨rfl, hfiled _ hc, h₁, h₂⟩))
            · exact fail _
    | _ => cases hus <;> exact fail _

/-- Lists that correspond still do when the elements at one position are taken out. -/
theorem forall₂_eraseIdx {r : Value → Value → Prop} (h : List.Forall₂ r us vs) (n : Nat) :
    List.Forall₂ r (us.eraseIdx n) (vs.eraseIdx n) := by
  induction h generalizing n with
  | nil => exact .nil
  | cons h hs ih =>
    cases n with
    | zero => exact hs
    | succ n => exact .cons h (ih n)

/-- The array without an element is new. -/
theorem removeElement (hus : List.Forall₂ (S.matching w).value us vs) (h : (S.matching w).value u v) :
    Follows w values (Builtin.removeElement us u) (Builtin.removeElement vs v) := by
  have hempty : us.isEmpty = vs.isEmpty := by cases hus <;> rfl
  unfold Builtin.removeElement
  dsimp only
  rw [hempty]
  split
  · exact fail_bind _
  · refine datum h fun d e hd => ?_
    cases hd with
    | null | boolean => exact fail _
    | object ho =>
      cases ho with
      | integer i =>
        dsimp only
        rw [hus.length_eq]
        split
        · exact alloc (.array (forall₂_eraseIdx hus _))
        · exact fail _
      | _ => exact fail _

/-- An entry is removed from the hash that is there at the time. -/
theorem removeEntry {i j : ObjectId} {ds es : List HashEntry} (hs : S.stores w s t)
    (h : (S.matching w).value (.ref i) (.ref j)) (hds : s.datum (.ref i) = .object (.hash ds))
    (hes : t.datum (.ref j) = .object (.hash es)) (hentries : (S.matching w).Entries ds es)
    (hu : (S.matching w).value u v) :
    Agree w values (Builtin.removeEntry i ds u s) (Builtin.removeEntry j es v t) := by
  have hempty : ds.isEmpty = es.isEmpty := by cases hentries.pairwise <;> rfl
  unfold Builtin.removeEntry
  dsimp only
  rw [hempty]
  split
  · exact fail_bind _ hs
  · rw [Eval.datum_bind, Eval.datum_bind]
    have hd := S.datum hs hu
    rw [hd.keyContent?_eq, hd.type_eq]
    cases (t.datum v).keyContent? with
    | none => exact fail _ hs
    | some content =>
      dsimp only
      rw [rel_isSome (hentries.find? content)]
      split
      · obtain ⟨w', hw, hs'⟩ := S.erase content hs h hds hes
        exact ⟨w', S.quiet_le hw, hs', (quiet_mono hw).value h⟩
      · exact fail _ hs

/-- The `remove` of an array makes a new one, that of a hash changes the hash. -/
theorem removeFrom (h : (S.matching w).value u v) (h' : (S.matching w).value u' v') :
    Follows w values (Builtin.removeFrom u u') (Builtin.removeFrom v v') := by
  refine readDatum fun s t hs => ?_
  have hd := S.datum hs h
  generalize hsu : s.datum u = d at hd
  generalize htv : t.datum v = e at hd
  cases hd with
  | null | boolean => exact fail _ hs
  | object ho =>
    cases ho with
    | array hus => exact removeElement hus h' hs
    | hash hentries =>
      -- only a reference refers to a hash
      cases u with
      | null | boolean => cases hsu
      | ref i =>
        cases v with
        | null | boolean => cases htv
        | ref j => exact removeEntry hs h hsu htv hentries h'
    | _ => exact fail _ hs

/-- Corresponding values are shown alike, so the same is printed. -/
theorem printAll (h : List.Forall₂ (S.matching w).value us vs) :
    Follows w values (Builtin.printAll us) (Builtin.printAll vs) := by
  refine bind (R := done) (change fun s t hs => ?_) fun w' _ _ _ _ => pure (S.null w')
  have htext : us.map (fun v => s.display v ++ "\n") = vs.map (fun v => t.display v ++ "\n") :=
    map_eq_of_forall₂ h fun u v huv => congrArg (· ++ "\n") (S.display hs huv)
  rw [htext]
  obtain ⟨w', hw, hs'⟩ := S.print _ hs
  exact ⟨w', S.quiet_le hw, hs'⟩

/-- Calls of a built-in function follow each other. -/
theorem call (b : Builtin) (h : List.Forall₂ (S.matching w).value us vs) :
    Follows w values (b.call us) (b.call vs) := by
  have hlen := h.length_eq
  have wrong (n : Nat) : Follows w values (Eval.fail (.wrongArguments us.length n) : Eval Value)
      (Eval.fail (.wrongArguments vs.length n)) := by rw [hlen]; exact fail _
  cases h with
  | nil => cases b with
    | print => exact printAll .nil
    | _ => exact fail _
  | cons h₁ h => cases h with
    | nil => cases b with
      | len => exact lenOf h₁
      | first =>
        refine (elementsOf _ h₁).bind fun w' us vs _ h => ?_
        cases h with
        | nil => exact pure (S.null w')
        | cons h _ => exact pure h
      | last =>
        refine (elementsOf _ h₁).bind fun w' us vs _ h => pure ?_
        rw [← List.getLastD_eq_getLast?, ← List.getLastD_eq_getLast?]
        exact forall₂_getLastD h (S.null w')
      | rest => exact (elementsOf _ h₁).bind fun w' us vs _ h => restOf h
      | add => exact addTo h₁ .nil
      | remove => exact wrong 2
      | print => exact printAll (.cons h₁ .nil)
    | cons h₂ h => cases b with
      | add => exact addTo h₁ (.cons h₂ h)
      | print => exact printAll (.cons h₁ (.cons h₂ h))
      | remove => cases h with
        | nil => exact removeFrom h₁ h₂
        | cons => exact wrong 2
      | _ => exact wrong 1

end Follows

end Simulation

end Pron
