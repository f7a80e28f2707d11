import Pron.Proofs.Evaluation
import Pron.Proofs.Reachable
import Pron.Proofs.Simulation.Evaluation

/-!
# Invariants

An invariant is a simulation of a run by itself. It is given by a property of stores (`Invariant.Holds`), a relation
between a store and what becomes of it (`Invariant.Later`), and by the values and frames that an evaluation may come to
know (`Guard`). Once the operations on the store are seen to keep the invariant, every evaluation does: it ends in a
store where the invariant holds, and with a value that may be known (`Invariant.recs`, `Invariant.Ends`). So the
invariant holds in every reachable state (`Invariant.reachable`).
-/

namespace Pron

/-! ## What may be known -/

/-- The values and frames that an evaluation may come to know; the parts are those of `Matching`. -/
structure Guard where
  value : Value → Prop
  frame : FrameId → Prop
  owner : FrameId → Prop
  maker : FrameId → Prop
  filed : HashKey → Value → Prop
  ordered : Prop

namespace Guard

variable (G : Guard)

/-- An entry of known values. -/
structure Entry (e : HashEntry) : Prop where
  filed : G.filed e.content e.key
  key : G.value e.key
  value : G.value e.value

/-- An object that refers to known values and frames only. -/
def Object : Pron.Object → Prop
  | .array elements => ∀ v ∈ elements, G.value v
  | .hash entries => (∀ e ∈ entries, G.Entry e) ∧ (G.ordered → Entries.Sorted entries)
  | .function closure => G.frame closure.frame
  | .inst _ E => G.owner E
  | .init _ E => G.maker E
  | _ => True

/-- A stop that gives away known values only. -/
def Stop : Pron.Stop → Prop
  | .returned v => G.value v
  | _ => True

/-- Known values and frames correspond to themselves. -/
def diagonal : Matching where
  value u v := u = v ∧ G.value u
  frame E F := E = F ∧ G.frame E
  owner E F := E = F ∧ G.owner E
  maker E F := E = F ∧ G.maker E
  filed c u v := u = v ∧ G.filed c u
  ordered := G.ordered

/-- A guard that lets through no less; what was entered as a key may have changed. -/
structure Le (G H : Guard) : Prop where
  value {v : Value} : G.value v → H.value v
  frame {E : FrameId} : G.frame E → H.frame E
  owner {E : FrameId} : G.owner E → H.owner E
  maker {E : FrameId} : G.maker E → H.maker E
  ordered : H.ordered → G.ordered

variable {G} {H : Guard}

theorem Le.diagonal (h : G.Le H) : G.diagonal.Le H.diagonal where
  value := fun ⟨he, hv⟩ => ⟨he, h.value hv⟩
  frame := fun ⟨he, hE⟩ => ⟨he, h.frame hE⟩
  owner := fun ⟨he, hE⟩ => ⟨he, h.owner hE⟩
  maker := fun ⟨he, hE⟩ => ⟨he, h.maker hE⟩
  ordered := h.ordered

theorem Object.mono (h : G.Le H) (hfiled : ∀ {c v}, G.filed c v → H.filed c v) {o : Pron.Object}
    (ho : G.Object o) : H.Object o := by
  cases o with
  | integer | real | text | builtin => trivial
  | array elements => exact fun v hv => h.value (ho v hv)
  | hash entries =>
    refine ⟨fun e he => ?_, fun hsorted => ho.2 (h.ordered hsorted)⟩
    have hentry := ho.1 e he
    exact ⟨hfiled hentry.filed, h.value hentry.key, h.value hentry.value⟩
  | function closure => exact h.frame ho
  | inst className E => exact h.owner ho
  | init constructor E => exact h.maker ho

/-! ## The diagonal -/

section Diagonal

variable {α : Type} {P : α → Prop}

/-- Lists that agree on the diagonal are one list. -/
theorem forall₂_diagonal {as bs : List α} :
    List.Forall₂ (fun a b => a = b ∧ P a) as bs ↔ as = bs ∧ ∀ a ∈ as, P a := by
  constructor
  · intro h
    induction h with
    | nil => exact ⟨rfl, fun _ h => by cases h⟩
    | cons hab _ ih =>
      obtain ⟨rfl, ha⟩ := hab
      obtain ⟨rfl, has⟩ := ih
      exact ⟨rfl, List.forall_mem_cons.2 ⟨ha, has⟩⟩
  · rintro ⟨rfl, h⟩
    exact List.forall₂_same.2 fun a ha => ⟨rfl, h a ha⟩

theorem rel_diagonal {a b : Option α} :
    Option.Rel (fun a b => a = b ∧ P a) a b ↔ a = b ∧ ∀ x, a = some x → P x := by
  constructor
  · rintro (⟨rfl, h⟩ | _)
    · exact ⟨rfl, fun x hx => by cases hx; exact h⟩
    · exact ⟨rfl, fun x hx => by cases hx⟩
  · rintro ⟨rfl, h⟩
    cases a with
    | none => exact .none
    | some a => exact .some ⟨rfl, h a rfl⟩

end Diagonal

theorem entry_diagonal {d e : HashEntry} : G.diagonal.Entry d e ↔ d = e ∧ G.Entry d := by
  constructor
  · rintro ⟨hc, ⟨hk, hfiled⟩, ⟨_, hkey⟩, ⟨hv, hvalue⟩⟩
    obtain ⟨c, k, v⟩ := d
    cases hc
    cases hk
    cases hv
    exact ⟨rfl, hfiled, hkey, hvalue⟩
  · rintro ⟨rfl, hfiled, hkey, hvalue⟩
    exact ⟨rfl, ⟨rfl, hfiled⟩, ⟨rfl, hkey⟩, ⟨rfl, hvalue⟩⟩

theorem entries_diagonal {ds es : List HashEntry} :
    G.diagonal.Entries ds es ↔ ds = es ∧ (∀ e ∈ ds, G.Entry e) ∧ (G.ordered → Entries.Sorted ds) := by
  have hrel : G.diagonal.Entry = fun d e => d = e ∧ G.Entry d := by
    funext d e
    exact propext entry_diagonal
  constructor
  · rintro ⟨hpairs, hsorted⟩
    rw [hrel, forall₂_diagonal] at hpairs
    exact ⟨hpairs.1, hpairs.2, hsorted⟩
  · rintro ⟨rfl, hentries, hsorted⟩
    exact ⟨hrel ▸ forall₂_diagonal.2 ⟨rfl, hentries⟩, hsorted⟩

/-- An object that corresponds to itself is one with guarded parts; likewise for entries and bindings. -/
theorem object_diagonal {o p : Pron.Object} : G.diagonal.Object o p ↔ o = p ∧ G.Object o := by
  constructor
  · intro h
    cases h with
    | integer | real | text | builtin => exact ⟨rfl, trivial⟩
    | array h =>
      obtain ⟨rfl, hvalues⟩ := forall₂_diagonal.1 h
      exact ⟨rfl, hvalues⟩
    | hash h =>
      obtain ⟨rfl, hentries⟩ := entries_diagonal.1 h
      exact ⟨rfl, hentries⟩
    | function _ _ h | inst _ h | init _ h =>
      obtain ⟨rfl, h⟩ := h
      exact ⟨rfl, h⟩
  · rintro ⟨rfl, h⟩
    cases o with
    | integer n => exact .integer n
    | real x => exact .real x
    | text t => exact .text t
    | array elements => exact .array (forall₂_diagonal.2 ⟨rfl, h⟩)
    | hash entries => exact .hash (entries_diagonal.2 ⟨rfl, h⟩)
    | function closure => exact .function _ _ ⟨rfl, h⟩
    | builtin b => exact .builtin b
    | inst className E => exact .inst _ ⟨rfl, h⟩
    | init constructor E => exact .init _ ⟨rfl, h⟩

theorem datum_diagonal {s : Store} {v : Value} (h : ∀ o, s.datum v = .object o → G.Object o) :
    G.diagonal.Datum (s.datum v) (s.datum v) := by
  cases hd : s.datum v with
  | null => exact .null
  | boolean b => exact .boolean b
  | object o => exact .object (object_diagonal.2 ⟨rfl, h o hd⟩)

theorem bindings_diagonal {bs cs : Bindings} :
    List.Forall₂ G.diagonal.Binding bs cs ↔ bs = cs ∧ ∀ b ∈ bs, G.value b.2 := by
  have hrel : G.diagonal.Binding = fun b c => b = c ∧ G.value b.2 := by
    funext ⟨x, u⟩ ⟨y, v⟩
    refine propext ⟨?_, ?_⟩
    · rintro ⟨rfl, rfl, h⟩
      exact ⟨rfl, h⟩
    · rintro ⟨h, hu⟩
      cases h
      exact ⟨rfl, rfl, hu⟩
  rw [hrel, forall₂_diagonal]

/-- What ends an evaluation corresponds to itself only. -/
theorem stop_diagonal {x y : Pron.Stop} (h : G.diagonal.Stop x y) : x = y ∧ G.Stop x := by
  cases h with
  | returned h =>
    obtain ⟨rfl, h⟩ := h
    exact ⟨rfl, h⟩
  | failed | tooDeep => exact ⟨rfl, trivial⟩

end Guard

/-! ## Invariants -/

/-- A property of stores that the operations of the evaluator keep. -/
structure Invariant where
  Holds : Store → Prop
  /-- What may become of a store while certain keys are in hand. -/
  Later : List Value → Store → Store → Prop
  /-- What may become of a store while all keys stay what they are. -/
  Quiet : Store → Store → Prop
  /-- What may be known in a store. -/
  guard : Store → Guard
  refl (keys : List Value) (s : Store) : Later keys s s
  trans {keys : List Value} {s₁ s₂ s₃ : Store} : Later keys s₁ s₂ → Later keys s₂ s₃ → Later keys s₁ s₃
  mono {keys : List Value} {s s' : Store} : Later keys s s' → (guard s).Le (guard s')
  fewer {keys keys' : List Value} {s s' : Store} : keys' ⊆ keys → Later keys s s' → Later keys' s s'
  quiet_refl (s : Store) : Quiet s s
  quiet_trans {s₁ s₂ s₃ : Store} : Quiet s₁ s₂ → Quiet s₂ s₃ → Quiet s₁ s₃
  quiet_later {s s' : Store} (keys : List Value) : Quiet s s' → Later keys s s'
  filed_mono {s s' : Store} {c : HashKey} {v : Value} : Quiet s s' → (guard s).filed c v → (guard s').filed c v
  filed_later {keys : List Value} {s s' : Store} {c : HashKey} {v : Value} : v ∈ keys → Later keys s s' →
    (guard s).filed c v → (guard s').filed c v
  null (s : Store) : (guard s).value .null
  boolean (s : Store) (b : Bool) : (guard s).value (.boolean b)
  owner_frame {s : Store} {E : FrameId} : (guard s).owner E → (guard s).frame E
  owner_maker {s : Store} {E : FrameId} : (guard s).owner E → (guard s).maker E
  -- what is read
  object {s : Store} {v : Value} {o : Object} : Holds s → (guard s).value v → s.datum v = .object o →
    (guard s).Object o
  parent {s : Store} {E P : FrameId} : Holds s → (guard s).frame E → s.parent? E = some P → (guard s).frame P
  binding {s : Store} {E : FrameId} {b : String × Value} : Holds s → (guard s).frame E → b ∈ s.bindings E →
    (guard s).value b.2
  filed {s : Store} {v : Value} {c : HashKey} : Holds s → (guard s).value v → (s.datum v).keyContent? = some c →
    (guard s).filed c v
  filed_copy {s : Store} {v : Value} {c : HashKey} {n : Nat} : Holds s → (guard s).filed c v →
    Holds (Store.copyUpTo n v s).2 → Quiet s (Store.copyUpTo n v s).2 →
    (guard (Store.copyUpTo n v s).2).filed c (Store.copyUpTo n v s).1
  -- what is written
  alloc {s : Store} {o : Object} : Holds s → (guard s).Object o →
    Holds (s.alloc o).2 ∧ Quiet s (s.alloc o).2 ∧ (guard (s.alloc o).2).value (s.alloc o).1
  newFrame {s : Store} {f : Frame} : Holds s → s.Binds f.bindings → (∀ P, f.parent = some P → (guard s).frame P) →
    (∀ b ∈ f.bindings, (guard s).value b.2) →
    Holds (s.newFrame f).2 ∧ Quiet s (s.newFrame f).2 ∧ (guard (s.newFrame f).2).frame (s.newFrame f).1 ∧
      (f.parent = none → (guard (s.newFrame f).2).owner (s.newFrame f).1)
  set {s : Store} {E : FrameId} {v : Value} (x : String) : Holds s → (guard s).frame E → (guard s).value v →
    Holds (s.set E x v) ∧ Quiet s (s.set E x v)
  erase {s : Store} {id : ObjectId} {entries : List HashEntry} (c : HashKey) : Holds s → (guard s).value (.ref id) →
    s.datum (.ref id) = .object (.hash entries) →
    Holds (s.write id (.hash (Entries.erase c entries))) ∧ Quiet s (s.write id (.hash (Entries.erase c entries)))
  print {s : Store} (text : String) : Holds s → Holds (s.print text) ∧ Quiet s (s.print text)
  request {s : Store} (className : String) : Holds s → Holds (s.request className) ∧ Quiet s (s.request className)

namespace Invariant

variable (I : Invariant)

/-- The frames around a guarded frame are guarded. -/
theorem chainUpTo {s : Store} (hs : I.Holds s) (n : Nat) {E : FrameId} (hE : (I.guard s).frame E) :
    ∀ F ∈ s.chainUpTo n E, (I.guard s).frame F := by
  induction n generalizing E with
  | zero => exact List.forall_mem_singleton.2 hE
  | succ n ih =>
    unfold Store.chainUpTo
    cases hP : s.parent? E with
    | none => exact List.forall_mem_singleton.2 hE
    | some P => exact List.forall_mem_cons.2 ⟨hE, ih (I.parent hs hE hP)⟩

/-- A run of which the invariant holds, next to itself, while certain keys are in hand. The world is the store of the
time. -/
def toSimulation (keys : List Value) : Simulation where
  World := Store
  Le := I.Later keys
  Quiet := I.Quiet
  matching s := (I.guard s).diagonal
  stores w s t := s = w ∧ t = w ∧ I.Holds w
  refl := I.refl keys
  trans := I.trans
  mono h := (I.mono h).diagonal
  quiet_refl := I.quiet_refl
  quiet_trans := I.quiet_trans
  quiet_le := I.quiet_later keys
  filed_mono := fun h ⟨he, hv⟩ => ⟨he, I.filed_mono h hv⟩
  null w := ⟨rfl, I.null w⟩
  boolean w b := ⟨rfl, I.boolean w b⟩
  owner_frame := fun ⟨he, hE⟩ => ⟨he, I.owner_frame hE⟩
  owner_maker := fun ⟨he, hE⟩ => ⟨he, I.owner_maker hE⟩
  datum := by
    rintro w _ _ u _ ⟨rfl, rfl, hs⟩ ⟨rfl, hu⟩
    exact Guard.datum_diagonal fun o ho => I.object hs hu ho
  value_eq_iff := by
    rintro w s t u _ u' _ _ ⟨rfl, _⟩ ⟨rfl, _⟩
    exact Iff.rfl
  frame_eq_iff := by
    rintro w s t E _ E' _ _ ⟨rfl, _⟩ ⟨rfl, _⟩
    exact Iff.rfl
  chain := by
    rintro w _ _ E _ ⟨rfl, rfl, hs⟩ ⟨rfl, hE⟩
    exact Guard.forall₂_diagonal.2 ⟨rfl, I.chainUpTo hs E.index hE⟩
  bindings := by
    rintro w _ _ E _ ⟨rfl, rfl, hs⟩ ⟨rfl, hE⟩
    exact Guard.bindings_diagonal.2 ⟨rfl, fun _ hb => I.binding hs hE hb⟩
  display := by
    rintro w _ _ u _ ⟨rfl, rfl, _⟩ ⟨rfl, _⟩
    rfl
  filed := by
    rintro w _ _ u _ c ⟨rfl, rfl, hs⟩ ⟨rfl, hu⟩ hc
    exact ⟨rfl, I.filed hs hu hc⟩
  copyDepth := by
    rintro w _ _ u _ ⟨rfl, rfl, _⟩ ⟨rfl, _⟩
    exact ⟨Store.depthBound u, rfl, rfl⟩
  filed_copy := by
    rintro w w' _ _ u _ c n ⟨rfl, rfl, hs⟩ ⟨rfl, hu⟩ hw ⟨rfl, _, hs'⟩
    exact ⟨rfl, I.filed_copy hs hu hs' hw⟩
  alloc := by
    rintro w _ _ o p ⟨rfl, rfl, hs⟩ ho
    obtain ⟨rfl, hobject⟩ := Guard.object_diagonal.1 ho
    obtain ⟨hs', hlater, hv⟩ := I.alloc hs hobject
    exact ⟨_, hlater, ⟨rfl, rfl, hs'⟩, rfl, hv⟩
  newFrame := by
    rintro w _ _ ⟨P, bs⟩ ⟨Q, cs⟩ ⟨rfl, rfl, hs⟩ hbinds hP hbs
    obtain ⟨rfl, hparent⟩ := Guard.rel_diagonal.1 hP
    obtain ⟨rfl, hvalues⟩ := Guard.bindings_diagonal.1 hbs
    obtain ⟨hs', hlater, hE, howner⟩ := I.newFrame hs hbinds hparent hvalues
    exact ⟨_, hlater, ⟨rfl, rfl, hs'⟩, ⟨rfl, hE⟩, fun h => ⟨rfl, howner h⟩⟩
  set := by
    rintro w _ _ E _ u _ x ⟨rfl, rfl, hs⟩ ⟨rfl, hE⟩ ⟨rfl, hu⟩
    obtain ⟨hs', hlater⟩ := I.set x hs hE hu
    exact ⟨_, hlater, rfl, rfl, hs'⟩
  erase := by
    rintro w _ _ i j ds es c ⟨rfl, rfl, hs⟩ ⟨hij, hi⟩ hds hes
    cases hij
    obtain ⟨hs', hlater⟩ := I.erase c hs hi hds
    rw [hds] at hes
    cases hes
    exact ⟨_, hlater, rfl, rfl, hs'⟩
  print := by
    rintro w _ _ text ⟨rfl, rfl, hs⟩
    obtain ⟨hs', hlater⟩ := I.print text hs
    exact ⟨_, hlater, rfl, rfl, hs'⟩
  request := by
    rintro w _ _ className ⟨rfl, rfl, hs⟩
    obtain ⟨hs', hlater⟩ := I.request className hs
    exact ⟨_, hlater, rfl, rfl, hs'⟩

/-! ## Names under an invariant -/

section Names

variable {I} {s : Store} {E : FrameId} {x : String} {v : Value}

/-- A name stands for a known value. -/
theorem get? (hs : I.Holds s) (hE : (I.guard s).frame E) (hget : s.get? E x = some v) : (I.guard s).value v := by
  have hstores : (I.toSimulation []).stores s s s := ⟨rfl, rfl, hs⟩
  have hframe : ((I.toSimulation []).matching s).frame E E := ⟨rfl, hE⟩
  have hrel := Simulation.get? hstores hframe x
  rw [hget] at hrel
  cases hrel with
  | some h => exact h.2

end Names

/-! ## How evaluations end -/

variable {I} {keys : List Value} {s t : Store} {E : FrameId} {α β : Type}

/-- An evaluation ends where the invariant holds, with a result as described or giving away known values only. -/
def Ends (I : Invariant) (keys : List Value) (s : Store) (R : Store → α → Prop) : EStateM.Result Stop Store α → Prop
  | .ok a t => I.Holds t ∧ I.Later keys s t ∧ R t a
  | .error x t => I.Holds t ∧ I.Later keys s t ∧ (I.guard t).Stop x

/-- A known value. -/
def known (I : Invariant) (s : Store) (v : Value) : Prop := (I.guard s).value v

namespace Ends

variable {R : Store → α → Prop} {Q : Store → β → Prop} {r : EStateM.Result Stop Store α}

/-- What follows itself keeps the invariant. -/
theorem of_follows {S : (I.toSimulation keys).World → α → α → Prop} {x : Eval α}
    (h : Simulation.Follows s S x x) (hR : ∀ s a, S s a a → R s a) (hs : I.Holds s) : I.Ends keys s R (x s) := by
  have h := h (s := s) (t := s) ⟨rfl, rfl, hs⟩
  generalize x s = r at h
  cases r with
  | ok a t =>
    obtain ⟨_, hlater, ⟨rfl, _, ht⟩, hS⟩ := h
    exact ⟨ht, hlater, hR _ _ hS⟩
  | error stop t =>
    obtain ⟨_, hlater, ⟨rfl, _, ht⟩, hstop⟩ := h
    exact ⟨ht, hlater, (Guard.stop_diagonal hstop).2⟩

theorem of_values {x : Eval Value} (h : Simulation.Follows (S := I.toSimulation keys) s Simulation.values x x)
    (hs : I.Holds s) : I.Ends keys s I.known (x s) := of_follows h (fun _ _ hR => hR.2) hs

theorem agree {r : EStateM.Result Stop Store Value} (h : I.Ends keys s I.known r) :
    Simulation.Agree (S := I.toSimulation keys) s Simulation.values r r := by
  cases r with
  | ok v t => exact ⟨t, h.2.1, ⟨rfl, rfl, h.1⟩, rfl, h.2.2⟩
  | error x t =>
    refine ⟨t, h.2.1, ⟨rfl, rfl, h.1⟩, ?_⟩
    cases x with
    | returned v => exact .returned ⟨rfl, h.2.2⟩
    | failed e => exact .failed e
    | tooDeep => exact .tooDeep

theorem fewer {keys' : List Value} {stop : Stop} (h : I.Ends keys' s R (.error stop t)) (hkeys : keys ⊆ keys') :
    I.Ends keys s Q (.error stop t) := ⟨h.1, I.fewer hkeys h.2.1, h.2.2⟩

/-- An evaluation that starts later ends later. -/
theorem after (h : I.Ends keys t R r) (hlater : I.Later keys s t) : I.Ends keys s R r := by
  cases r with
  | ok => exact ⟨h.1, I.trans hlater h.2.1, h.2.2⟩
  | error => exact ⟨h.1, I.trans hlater h.2.1, h.2.2⟩

/-- One evaluation after another, the first while more keys are in hand. -/
theorem bind {keys' : List Value} (hkeys : keys ⊆ keys') {x : Eval α} {f : α → Eval β} (hx : I.Ends keys' s R (x s))
    (hf : ∀ a t, I.Holds t → I.Later keys' s t → R t a → I.Ends keys t Q (f a t)) :
    I.Ends keys s Q ((x >>= f) s) := by
  cases hr : x s with
  | ok a t =>
    rw [hr] at hx
    rw [Eval.bind_of_ok hr]
    exact (hf a t hx.1 hx.2.1 hx.2.2).after (I.fewer hkeys hx.2.1)
  | error stop t =>
    rw [hr] at hx
    rw [Eval.bind_of_error hr]
    exact hx.fewer hkeys

end Ends

/-! ## Steps of integers -/

/-- `x++` or `x--`, in all stores where it is not the place to stop. -/
def Steps (I : Invariant) (keys : List Value) (stop : Expr → FrameId → Store → Bool) : Prop :=
  ∀ (s : Store) (E : FrameId) (x : String) (up : Bool), I.Holds s → (I.guard s).frame E →
    stop (if up then .increment x else .decrement x) E s = false → I.Ends keys s I.known (Eval.step x up E s)

theorem Steps.mono {stop stop' : Expr → FrameId → Store → Bool} (hsteps : I.Steps keys stop)
    (h : ∀ e E s, stop e E s = true → stop' e E s = true) : I.Steps keys stop' := by
  intro s E x up hs hE hstop
  refine hsteps s E x up hs hE ?_
  rw [← Bool.not_eq_true] at hstop ⊢
  exact mt (h _ _ _) hstop

/-- It is enough that the invariant survives the change of the integer. -/
theorem steps_of_write {stop : Expr → FrameId → Store → Bool}
    (h : ∀ {s E x id n} (up : Bool) (m : Int64), I.Holds s → (I.guard s).value (.ref id) → s.get? E x = some (.ref id) →
      s.datum (.ref id) = .object (.integer n) → stop (if up then .increment x else .decrement x) E s = false →
      I.Holds (s.write id (.integer m)) ∧ I.Later keys s (s.write id (.integer m))) : I.Steps keys stop := by
  intro s E x up hs hE hstop
  rcases Eval.step_cases x up E s with ⟨e, hstep⟩ | ⟨id, n, m, hget, hn, hstep⟩
  · rw [hstep]
    exact ⟨hs, I.refl keys s, trivial⟩
  · have hid := get? hs hE hget
    obtain ⟨hwrite, hlater⟩ := h up m hs hid hget hn hstop
    rw [hstep]
    exact ⟨hwrite, hlater, (I.mono hlater).value hid⟩

/-! ## Literals of hashes -/

/-- Entries with keys that were in hand. -/
theorem entry_later (h : I.Later keys s t) {e : HashEntry} (he : e.key ∈ keys) (hentry : (I.guard s).Entry e) :
    (I.guard t).Entry e :=
  ⟨I.filed_later he h hentry.filed, (I.mono h).value hentry.key, (I.mono h).value hentry.value⟩

/-- The keys of a literal are in hand until it is evaluated, so they stay what they are. -/
theorem hashPairsWith {rec : List Value → Expr → FrameId → Eval Value}
    (hrec : ∀ keys, (I.toSimulation keys).Recs (rec keys) (rec keys)) (keys : List Value) (pairs : List KeyValue)
    {entries : List HashEntry} (hs : I.Holds s) (hE : (I.guard s).frame E)
    (hentries : (I.guard s).Object (.hash entries)) :
    I.Ends keys s I.known (Eval.hashPairsWith rec keys pairs entries E s) := by
  induction pairs generalizing s entries with
  | nil =>
    obtain ⟨hs', hquiet, hv⟩ := I.alloc hs hentries
    exact ⟨hs', I.quiet_later keys hquiet, hv⟩
  | cons p rest ih =>
    have hkey : I.Ends (entries.map HashEntry.key ++ keys) s I.known _ := .of_values (hrec _ s p.key ⟨rfl, hE⟩) hs
    refine hkey.bind (List.subset_append_right _ _) fun key t ht hst hkey => ?_
    rw [Eval.datum_bind]
    cases hc : (t.datum key).keyContent? with
    | none => exact ⟨ht, I.refl keys t, trivial⟩
    | some content =>
      have hE := (I.mono hst).frame hE
      have hvalue : I.Ends (key :: entries.map HashEntry.key ++ keys) t I.known _ :=
        .of_values (hrec _ t p.value ⟨rfl, hE⟩) ht
      have hkeys : keys ⊆ key :: entries.map HashEntry.key ++ keys := List.subset_append_right _ _
      refine hvalue.bind hkeys fun value t' ht' htt' hvalue => ih ht' ((I.mono htt').frame hE) ⟨fun e he => ?_, ?_⟩
      · rcases Entries.mem_insert he with rfl | he
        · exact ⟨I.filed_later List.mem_cons_self htt' (I.filed ht hkey hc), (I.mono htt').value hkey, hvalue⟩
        · have hmem : e.key ∈ entries.map HashEntry.key ++ keys := List.mem_append_left _ (List.mem_map_of_mem he)
          exact entry_later htt' (List.mem_cons_of_mem _ hmem) (entry_later hst hmem (hentries.1 e he))
      · exact fun ho => (hentries.2 ((I.mono hst).ordered ((I.mono htt').ordered ho))).insert _

/-! ## Evaluations under an invariant -/

/-- **Evaluation under an invariant.** Evaluators keep it when `x++` and `x--` do. -/
theorem recs {stop : List Value → Expr → FrameId → Store → Bool} (hsteps : ∀ keys, I.Steps keys (stop keys))
    (library : Library) (n : Nat) (keys : List Value) :
    (I.toSimulation keys).Recs (Eval.exprUntil library stop n keys) (Eval.exprUntil library stop n keys) := by
  induction n generalizing keys with
  | zero => exact fun w e E F _ => Simulation.Follows.throw .tooDeep
  | succ n ih =>
    rintro _ e E _ ⟨rfl, hE⟩ _ (s : Store) ⟨rfl, rfl, hs⟩
    cases hstop : stop keys e E s with
    | true =>
      rw [Eval.exprUntil_stopped hstop]
      exact ⟨s, I.refl keys s, ⟨rfl, rfl, hs⟩, .tooDeep⟩
    | false =>
      by_cases hhash : ∃ pairs, e = .hash pairs
      · obtain ⟨pairs, rfl⟩ := hhash
        rw [Eval.exprUntil_hash hstop]
        exact (hashPairsWith ih keys pairs hs hE ⟨by simp, fun _ => .nil⟩).agree
      · have hother (pairs : List KeyValue) : e ≠ .hash pairs := fun he => hhash ⟨pairs, he⟩
        rw [Eval.exprUntil_node hstop hother]
        refine Simulation.Follows.node library (ih keys) e ⟨rfl, hE⟩ ⟨rfl, rfl, hs⟩ (fun x up he => ?_)
          fun pairs he => absurd he (hother pairs)
        subst he
        exact (hsteps keys s E x up hs hE hstop).agree

section Evaluations

variable {stop : List Value → Expr → FrameId → Store → Bool} (hsteps : ∀ keys, I.Steps keys (stop keys))
  (library : Library) (n : Nat) (keys : List Value) (hs : I.Holds s) (hE : (I.guard s).frame E)

include hsteps hs hE

/-- Statements keep the invariant. -/
theorem stmt (st : Stmt) : I.Ends keys s I.known (Eval.stmt (Eval.exprUntil library stop n keys) st E s) :=
  .of_values (.stmt (recs hsteps library n keys) st ⟨rfl, hE⟩) hs

theorem program (p : Program) : I.Ends keys s I.known (Eval.program (Eval.exprUntil library stop n keys) p E s) :=
  .of_values (.program (recs hsteps library n keys) p ⟨rfl, hE⟩) hs

end Evaluations

/-- A method works in the frame of its instance, also with its arguments; where there is no instance nothing happens. -/
theorem callMethod {rec : Expr → FrameId → Eval Value} (hrec : (I.toSimulation keys).Recs rec rec) (hs : I.Holds s)
    {object : String} (hobject : ∀ v className F, s.get? E object = some v → s.datum v = .object (.inst className F) →
      (I.guard s).frame F) (method : String) (arguments : List Expr) :
    I.Ends keys s I.known (Eval.callMethod rec object method arguments E s) := by
  rcases Eval.callMethod_cases s E object method rec arguments with
    ⟨e, hcall⟩ | ⟨v, className, F, f, closure, hget, hv, hf, hclosure, hcall⟩
  · rw [hcall]
    exact ⟨hs, I.refl keys s, trivial⟩
  · have hF := hobject v className F hget hv
    rw [hcall]
    obtain ⟨literal, C, isPublic⟩ := closure
    have hC : (I.guard s).frame C := I.object hs (get? hs hF hf) hclosure
    exact .of_values (.callWith hrec arguments ⟨rfl, hC⟩ ⟨rfl, hF⟩) hs

/-! ## Reachable states -/

/-- The invariant holds after an evaluation, whatever its outcome. -/
theorem Ends.outcome {R : Store → Value → Prop} {x : Eval Value} (h : I.Ends keys s R (x s)) :
    I.Holds (Outcome.of x s).2 ∧ I.Later keys s (Outcome.of x s).2 := by
  unfold Outcome.of
  generalize x s = r at h
  cases r with
  | ok a t => exact ⟨h.1, h.2.1⟩
  | error stop t => cases stop <;> exact ⟨h.1, h.2.1⟩

/-- **Reachable states.** An invariant that holds at the start of a session holds in all its states. -/
theorem reachable {avoid : List Value → Expr → FrameId → Store → Bool} (hsteps : ∀ keys, I.Steps keys (avoid keys))
    (hstart : I.Holds Session.start.store) (hframe : (I.guard Session.start.store).frame Session.start.frame)
    (h : ReachableAvoiding avoid s) : I.Holds s ∧ I.Later [] Session.start.store s := by
  induction h with
  | start => exact ⟨hstart, I.refl [] _⟩
  | run library stop havoid n p _ ih =>
    have hrun := program (fun keys => (hsteps keys).mono (havoid keys)) library n [] ih.1 ((I.mono ih.2).frame hframe) p
    exact ⟨hrun.outcome.1, I.trans ih.2 hrun.outcome.2⟩

end Invariant

end Pron
