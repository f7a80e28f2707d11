import Pron.Eval
import Pron.Proofs.Store.Scope

/-!
# Parts of the evaluator on a given store

What the parts of the evaluator that only look names up, or change one object, do with a store that is at hand. Literals
do the same in every frame, so an instance that is made with literals does not depend on where it is made.
-/

namespace Pron

namespace Eval

section States

variable {ε σ α β : Type} {x : EStateM ε σ α} {f : α → EStateM ε σ β} {s t : σ}

theorem get_bind (f : σ → EStateM ε σ α) (s : σ) : (get >>= f) s = f s s := rfl

theorem modify_bind (g : σ → σ) (f : PUnit → EStateM ε σ α) (s : σ) : (modify g >>= f) s = f ⟨⟩ (g s) := rfl

theorem bind_of_ok {a : α} (h : x s = .ok a t) : (x >>= f) s = f a t := by
  show EStateM.bind x f s = _
  rw [EStateM.bind, h]

theorem bind_of_error {e : ε} (h : x s = .error e t) : (x >>= f) s = .error e t := by
  show EStateM.bind x f s = _
  rw [EStateM.bind, h]

end States

theorem datum_bind {α : Type} (v : Value) (f : Datum → Eval α) (s : Store) :
    (datum v >>= f) s = f (s.datum v) s := rfl

/-! ## Actions on the store -/

section Actions

variable {α β : Type}

theorem ofStore_bind (x : StoreM α) (f : α → StoreM β) : ofStore (x >>= f) = ofStore x >>= fun a => ofStore (f a) := rfl

theorem ofStore_read (f : Store → StoreM α) : ofStore (get >>= f) = get >>= fun s => ofStore (f s) := rfl

theorem ofStore_mapM (f : α → StoreM β) (as : List α) : ofStore (as.mapM f) = as.mapM fun a => ofStore (f a) := by
  induction as with
  | nil => rfl
  | cons a as ih =>
    rw [List.mapM_cons, List.mapM_cons, ofStore_bind, ← ih]
    rfl

theorem ofStore_forM (f : α → StoreM Unit) (as : List α) : ofStore (as.forM f) = as.forM fun a => ofStore (f a) := by
  induction as with
  | nil => rfl
  | cons a as ih =>
    show ofStore (f a) >>= (fun _ => ofStore (as.forM f)) = ofStore (f a) >>= fun _ => as.forM fun a => ofStore (f a)
    rw [ih]

end Actions

/-! ## Steps of integers -/

section Steps

variable {s : Store} {E : FrameId} {x : String} {v : Value}

/-- A step gives an integer its new number. To bind the name to the same integer again changes nothing. -/
theorem step_of_integer {id : ObjectId} {k : Int64} (hget : s.get? E x = some (.ref id))
    (hk : s.datum (.ref id) = .object (.integer k)) (up : Bool) :
    step x up E s = .ok (.ref id) (s.write id (.integer (if up then k + 1 else k - 1))) := by
  let t := s.write id (.integer (if up then k + 1 else k - 1))
  obtain ⟨F, hF, hx⟩ := Option.bind_eq_some_iff.1 hget
  have hframes : t.frames = s.frames := rfl
  have hbinder : t.binder? E x = some F := (Store.binder?_congr hframes).trans hF
  have hagain : (t.update? E x (.ref id)).getD t = t := by
    rw [Store.update?, hbinder]
    exact Store.set_of_localValue? hx
  unfold step
  rw [get_bind, hget]
  dsimp only
  rw [datum_bind, hk]
  show EStateM.Result.ok (Value.ref id) ((t.update? E x (.ref id)).getD t) = _
  rw [hagain]

/-- A name that is not bound cannot be stepped. -/
theorem step_of_unbound (hget : s.get? E x = none) (up : Bool) :
    step x up E s = .error (.failed (.notDefined x)) s := by
  unfold step
  rw [get_bind, hget]
  rfl

/-- Only integers can be stepped. -/
theorem step_of_other (hget : s.get? E x = some v) (hv : ∀ k, s.datum v ≠ .object (.integer k)) (up : Bool) :
    step x up E s = .error (.failed (.unknownStep (s.datum v).type up)) s := by
  unfold step
  rw [get_bind, hget]
  dsimp only
  rw [datum_bind]
  cases hd : s.datum v with
  | null | boolean => rfl
  | object o =>
    cases o with
    | integer k => exact (hv k hd).elim
    | _ => rfl

/-- What `x++` and `x--` do. -/
theorem step_cases (x : String) (up : Bool) (E : FrameId) (s : Store) :
    (∃ e, step x up E s = .error (.failed e) s) ∨ ∃ id n m, s.get? E x = some (.ref id) ∧
      s.datum (.ref id) = .object (.integer n) ∧ step x up E s = .ok (.ref id) (s.write id (.integer m)) := by
  cases hget : s.get? E x with
  | none => exact .inl ⟨_, step_of_unbound hget up⟩
  | some v =>
    by_cases hv : ∃ k, s.datum v = .object (.integer k)
    · obtain ⟨k, hk⟩ := hv
      cases v with
      | null | boolean => cases hk
      | ref id => exact .inr ⟨id, k, _, rfl, hk, step_of_integer hget hk up⟩
    · exact .inl ⟨_, step_of_other hget (fun k hk => hv ⟨k, hk⟩) up⟩

end Steps

/-! ## Methods -/

section Methods

variable {s : Store} {E I : FrameId} {object method className : String} {v f : Value}

theorem findMethod_none (hget : s.get? E object = none) (method : String) :
    findMethod object method E s = .error (.failed (.notDefined object)) s := by
  unfold findMethod
  rw [get_bind, hget]
  rfl

/-- What is no object has no methods. -/
theorem findMethod_of_not_object (hget : s.get? E object = some v)
    (hv : ∀ className I, s.datum v ≠ .object (.inst className I)) (method : String) :
    findMethod object method E s = .error (.failed (.notAnObject object (s.datum v).type)) s := by
  unfold findMethod
  rw [get_bind, hget]
  dsimp only
  rw [datum_bind]
  cases hd : s.datum v with
  | null | boolean => rfl
  | object o =>
    cases o with
    | inst className I => exact (hv className I hd).elim
    | _ => rfl

variable (hget : s.get? E object = some v) (hv : s.datum v = .object (.inst className I))

include hget hv

/-- The object knows no function of this name. -/
theorem findMethod_no_method (hf : s.get? I method = none) :
    findMethod object method E s = .error (.failed (.noMethod method)) s := by
  unfold findMethod
  rw [get_bind, hget]
  dsimp only
  rw [datum_bind, hv]
  dsimp only
  rw [get_bind, hf]
  rfl

theorem findMethod_of_not_function (hf : s.get? I method = some f)
    (hfunction : ∀ closure, s.datum f ≠ .object (.function closure)) :
    findMethod object method E s = .error (.failed (.notAMethod method (s.datum f).type)) s := by
  unfold findMethod
  rw [get_bind, hget]
  dsimp only
  rw [datum_bind, hv]
  dsimp only
  rw [get_bind, hf]
  dsimp only
  rw [datum_bind]
  cases hd : s.datum f with
  | null | boolean => rfl
  | object o =>
    cases o with
    | function closure => exact (hfunction closure hd).elim
    | _ => rfl

/-- A private method is found from within the object only. -/
theorem findMethod_of_function {closure : Closure} (hf : s.get? I method = some f)
    (hfunction : s.datum f = .object (.function closure)) :
    findMethod object method E s =
      if !closure.isPublic && decide (s.root E ≠ I) then .error (.failed (.notPublic method object)) s
      else .ok (closure, I) s := by
  unfold findMethod
  rw [get_bind, hget]
  dsimp only
  rw [datum_bind, hv]
  dsimp only
  rw [get_bind, hf]
  dsimp only
  rw [datum_bind, hfunction]
  dsimp only
  rw [get_bind]
  split <;> rfl

/-- Whether a method is found depends on the instance that the name is bound to, and on where the call stands. -/
theorem findMethod_cases (method : String) :
    (∃ e, findMethod object method E s = .error (.failed e) s) ∨
      ∃ f closure, s.get? I method = some f ∧ s.datum f = .object (.function closure) ∧
        findMethod object method E s = .ok (closure, I) s := by
  cases hf : s.get? I method with
  | none => exact .inl ⟨_, findMethod_no_method hget hv hf⟩
  | some f =>
    by_cases hfunction : ∃ closure, s.datum f = .object (.function closure)
    · obtain ⟨closure, hfunction⟩ := hfunction
      rw [findMethod_of_function hget hv hf hfunction]
      split
      · exact .inl ⟨_, rfl⟩
      · exact .inr ⟨f, closure, rfl, hfunction, rfl⟩
    · exact .inl ⟨_, findMethod_of_not_function hget hv hf fun closure h => hfunction ⟨closure, h⟩⟩

end Methods

/-- A method call fails at once, or it evaluates its arguments in the frame of an instance and calls a function that
this frame binds. -/
theorem callMethod_cases (s : Store) (E : FrameId) (object method : String) (rec : Expr → FrameId → Eval Value)
    (arguments : List Expr) :
    (∃ e, callMethod rec object method arguments E s = .error (.failed e) s) ∨
      ∃ v className I f closure, s.get? E object = some v ∧ s.datum v = .object (.inst className I) ∧
        s.get? I method = some f ∧ s.datum f = .object (.function closure) ∧
        callMethod rec object method arguments E s = (exprs rec arguments I >>= callClosure rec closure) s := by
  cases hget : s.get? E object with
  | none => exact .inl ⟨_, bind_of_error (findMethod_none hget method)⟩
  | some v =>
    by_cases hv : ∃ className I, s.datum v = .object (.inst className I)
    · obtain ⟨className, I, hv⟩ := hv
      rcases findMethod_cases hget hv method with ⟨e, hfind⟩ | ⟨f, closure, hf, hclosure, hfind⟩
      · exact .inl ⟨e, bind_of_error hfind⟩
      · exact .inr ⟨v, className, I, f, closure, rfl, hv, hf, hclosure, bind_of_ok hfind⟩
    · have hnone (className : String) (I : FrameId) : s.datum v ≠ .object (.inst className I) :=
        fun h => hv ⟨className, I, h⟩
      exact .inl ⟨_, bind_of_error (findMethod_of_not_object hget hnone method)⟩

/-! ## Classes -/

/-- A class that is bound needs no unit. -/
theorem makeInstance_of_class {s : Store} {E T : FrameId} {className name : String} {v : Value}
    (hget : s.get? E className = some v) (hv : s.datum v = .object (.inst name T)) (library : Library)
    (rec : Expr → FrameId → Eval Value) (arguments : List Expr) :
    makeInstance library rec className arguments E s = instantiate rec className name T arguments E s := by
  have hclass : findClass library rec className E s = .ok v s := by
    unfold findClass
    rw [get_bind, hget]
    rfl
  unfold makeInstance
  rw [bind_of_ok hclass, datum_bind, hv]

end Eval

/-! ## Removal from containers -/

namespace Builtin

open Eval

variable {s : Store} {id : ObjectId} {entries : List HashEntry}

theorem removeFrom_hash (h : s.datum (.ref id) = .object (.hash entries)) (key : Value) :
    removeFrom (.ref id) key s = removeEntry id entries key s := by
  unfold removeFrom
  rw [datum_bind, h]

/-- The position is an integer between the ends of the array. -/
theorem removeElement_cases (elements : List Value) (position : Value) (s : Store) :
    (∃ e, removeElement elements position s = .error (.failed e) s) ∨
      ∃ n, n < elements.length ∧ removeElement elements position s = alloc (.array (elements.eraseIdx n)) s := by
  unfold removeElement
  by_cases hempty : elements.isEmpty
  · rw [if_pos hempty]
    exact .inl ⟨_, rfl⟩
  rw [if_neg hempty]
  show (∃ e, (datum position >>= _) s = _) ∨ ∃ n, _ ∧ (datum position >>= _) s = _
  rw [datum_bind]
  cases s.datum position with
  | null | boolean => exact .inl ⟨_, rfl⟩
  | object o =>
    cases o with
    | integer i =>
      dsimp only
      by_cases hi : 0 ≤ i ∧ i.toInt.toNat < elements.length
      · rw [if_pos hi]
        exact .inr ⟨_, hi.2, rfl⟩
      · rw [if_neg hi]
        exact .inl ⟨_, rfl⟩
    | _ => exact .inl ⟨_, rfl⟩

/-- An entry is removed if the key is one and is there. -/
theorem removeEntry_eq (h : entries ≠ []) (key : Value) (s : Store) :
    removeEntry id entries key s = (match (s.datum key).keyContent? with
      | some c =>
        if (Entries.find? c entries).isSome then .ok (.ref id) (s.write id (.hash (Entries.erase c entries)))
        else .error (.failed .noSuchKey) s
      | none => .error (.failed (.unusableKey (s.datum key).type)) s) := by
  unfold removeEntry
  rw [if_neg (mt List.isEmpty_iff.1 h)]
  show (datum key >>= _) s = _
  rw [datum_bind]
  cases (s.datum key).keyContent? with
  | none => rfl
  | some c =>
    dsimp only
    split <;> rfl

/-- The key has an entry. -/
theorem removeEntry_cases (id : ObjectId) (entries : List HashEntry) (key : Value) (s : Store) :
    (∃ e, removeEntry id entries key s = .error (.failed e) s) ∨
      ∃ c, (s.datum key).keyContent? = some c ∧ (Entries.find? c entries).isSome ∧
        removeEntry id entries key s = .ok (.ref id) (s.write id (.hash (Entries.erase c entries))) := by
  by_cases hempty : entries = []
  · subst hempty
    exact .inl ⟨.emptyHash, rfl⟩
  rw [removeEntry_eq hempty]
  cases (s.datum key).keyContent? with
  | none => exact .inl ⟨_, rfl⟩
  | some c =>
    dsimp only
    by_cases hfound : (Entries.find? c entries).isSome
    · exact .inr ⟨c, rfl, hfound, if_pos hfound⟩
    · exact .inl ⟨_, if_neg hfound⟩

/-- What `remove` does: an array without one of its elements is a new array, a hash loses an entry in its own place. -/
theorem removeFrom_cases (target key : Value) (s : Store) :
    (∃ e, removeFrom target key s = .error (.failed e) s) ∨
      (∃ elements n, s.datum target = .object (.array elements) ∧ n < elements.length ∧
        removeFrom target key s = alloc (.array (elements.eraseIdx n)) s) ∨
      ∃ id entries c, target = .ref id ∧ s.datum (.ref id) = .object (.hash entries) ∧
        (s.datum key).keyContent? = some c ∧ (Entries.find? c entries).isSome ∧
        removeFrom target key s = .ok (.ref id) (s.write id (.hash (Entries.erase c entries))) := by
  unfold removeFrom
  rw [datum_bind]
  cases hd : s.datum target with
  | null | boolean => exact .inl ⟨_, rfl⟩
  | object o =>
    cases o with
    | array elements =>
      rcases removeElement_cases elements key s with herror | ⟨n, hn, hremove⟩
      · exact .inl herror
      · exact .inr (.inl ⟨elements, n, rfl, hn, hremove⟩)
    | hash entries =>
      cases target with
      | null | boolean => cases hd
      | ref id =>
        rcases removeEntry_cases id entries key s with herror | ⟨c, hc, hfound, hremove⟩
        · exact .inl herror
        · exact .inr (.inr ⟨id, entries, c, rfl, hd, hc, hfound, hremove⟩)
    | _ => exact .inl ⟨_, rfl⟩

end Builtin

/-! ## Literals -/

/-- Expressions that are written values: numbers, also negative ones, texts, truth values, `null`, and arrays and hashes
of literals. -/
inductive Expr.IsLiteral : Expr → Prop
  | null : IsLiteral .null
  | integer (n : Int64) : IsLiteral (.integer n)
  | real (x : Float) : IsLiteral (.real x)
  | text (t : String) : IsLiteral (.text t)
  | boolean (b : Bool) : IsLiteral (.boolean b)
  | unary (op : UnaryOp) {operand : Expr} : IsLiteral operand → IsLiteral (.unary op operand)
  | array {elements : List Expr} : (∀ e ∈ elements, IsLiteral e) → IsLiteral (.array elements)
  | hash {pairs : List KeyValue} : (∀ p ∈ pairs, IsLiteral p.key) → (∀ p ∈ pairs, IsLiteral p.value) →
      IsLiteral (.hash pairs)

namespace Eval

section Congr

variable {rec : Expr → FrameId → Eval Value} {E F : FrameId}

/-- Frames in which the arguments have the same values give the same list. -/
theorem exprs_congr {es : List Expr} (h : ∀ e ∈ es, rec e E = rec e F) : exprs rec es E = exprs rec es F := by
  induction es with
  | nil => rfl
  | cons e es ih =>
    obtain ⟨he, hes⟩ := List.forall_mem_cons.1 h
    unfold exprs
    rw [he, ih hes]

theorem hashPairs_congr {pairs : List KeyValue} (hkey : ∀ p ∈ pairs, rec p.key E = rec p.key F)
    (hvalue : ∀ p ∈ pairs, rec p.value E = rec p.value F) (entries : List HashEntry) :
    hashPairs rec pairs entries E = hashPairs rec pairs entries F := by
  induction pairs generalizing entries with
  | nil => rfl
  | cons p rest ih =>
    obtain ⟨hk, hkeys⟩ := List.forall_mem_cons.1 hkey
    obtain ⟨hv, hvalues⟩ := List.forall_mem_cons.1 hvalue
    unfold hashPairs
    simp only [hk, hv, ih hkeys hvalues]

/-- It does not matter in which frame a literal is evaluated. -/
theorem expr_literal (library : Library) {e : Expr} (he : e.IsLiteral) (n : Nat) (E F : FrameId) :
    expr library n e E = expr library n e F := by
  induction n generalizing e with
  | zero => rfl
  | succ n ih =>
    unfold expr node
    cases he with
    | null | integer | real | text | boolean => rfl
    | unary op h =>
      dsimp only
      rw [ih h]
    | array h =>
      dsimp only
      rw [exprs_congr fun e he => ih (h e he)]
    | hash hkeys hvalues => exact hashPairs_congr (fun p hp => ih (hkeys p hp)) (fun p hp => ih (hvalues p hp)) []

theorem initArguments_congr {className : String} {I G : FrameId} {arguments : List (ConstructorParam × Expr)}
    (h : ∀ p ∈ arguments, rec p.2 E = rec p.2 F) :
    initArguments rec className I G arguments E = initArguments rec className I G arguments F := by
  induction arguments with
  | nil => rfl
  | cons p rest ih =>
    obtain ⟨hp, hrest⟩ := List.forall_mem_cons.1 h
    unfold initArguments
    simp only [hp, ih hrest]

/-- Where the arguments do not depend on the frame, the instance does not. -/
theorem initInstance_congr {className : String} {I : FrameId} {arguments : List Expr}
    (h : ∀ e ∈ arguments, rec e E = rec e F) :
    initInstance rec className I arguments E = initInstance rec className I arguments F := by
  have hconstruct (init : Constructor) :
      construct rec className init I arguments E = construct rec className init I arguments F := by
    have hzip : ∀ p ∈ init.parameters.zip arguments, rec p.2 E = rec p.2 F :=
      fun p hp => h p.2 (List.of_mem_zip (a := p.1) (b := p.2) hp).2
    unfold construct
    simp only [initArguments_congr hzip]
  unfold initInstance
  simp only [hconstruct]

theorem instantiate_congr {className name : String} {T : FrameId} {arguments : List Expr}
    (h : ∀ e ∈ arguments, rec e E = rec e F) :
    instantiate rec className name T arguments E = instantiate rec className name T arguments F := by
  unfold instantiate
  simp only [initInstance_congr h]

end Congr

end Eval

end Pron
