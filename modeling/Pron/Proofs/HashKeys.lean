import Pron.Proofs.WellFormed

/-!
# The keys of hashes

An entry of a hash is filed under the content that its key had when it was entered. The entries are always in the order
of these contents, and all contents are different. The key itself is an object that may be known by other names: when
it is an integer, `x++` or `x--` can change it later, and then the entry is not found under what its key is now
(`aliased_not_coherent`). Nothing else takes a key and its entry apart: as long as no key is stepped, neither one in a
hash nor one of a literal that is being evaluated, every key is what its entry is filed under, and leads to the value
that is shown next to it (`Store.hash_keys`).
-/

namespace Pron

/-! ## Keys and contents -/

/-- When a datum goes with a content under which it is filed as a key. -/
structure KeyRule where
  fits : HashKey → Datum → Prop
  of_content {c : HashKey} {d : Datum} : d.keyContent? = some c → fits c d
  isKey {c : HashKey} {d : Datum} : fits c d → d.keyContent?.isSome

namespace KeyRule

/-- The content is that of the key. -/
def exact : KeyRule where
  fits c d := d.keyContent? = some c
  of_content h := h
  isKey h := h ▸ rfl

/-- The content is that of the key, but for the number of an integer. -/
def loose : KeyRule where
  fits c d := d.keyContent? = some c ∨ ∃ m n, c = .integer m ∧ d = .object (.integer n)
  of_content := .inl
  isKey := by
    rintro c d (h | ⟨m, n, _, rfl⟩)
    · exact h ▸ rfl
    · rfl

end KeyRule

namespace Store

variable {s : Store} {u v : Value} {id : ObjectId}

theorem hasValue_of_key (h : (s.datum v).keyContent?.isSome) : s.HasValue v := by
  cases v with
  | null | boolean => trivial
  | ref id =>
    by_contra hid
    have hnone : s.objects[id.index]? = none := Array.getElem?_eq_none (Nat.le_of_not_lt hid)
    simp [datum, hnone, Datum.keyContent?] at h

/-- A copy of a key is the same key. -/
theorem datum_copyUpTo_key (n : Nat) (h : (s.datum v).keyContent?.isSome) :
    (copyUpTo n v s).2.datum (copyUpTo n v s).1 = s.datum v := by
  cases n with
  | zero => rfl
  | succ n =>
    unfold copyUpTo
    rw [read_bind]
    cases hd : s.datum v with
    | null | boolean => exact hd
    | object o =>
      cases o with
      | integer k => exact datum_alloc_self
      | text t => exact hd
      | _ => simp [hd, Datum.keyContent?] at h

end Store

/-! ## Keys as an invariant -/

namespace Store

variable (K : KeyRule) {s t : Store} {v : Value} {id : ObjectId} {o : Object}

/-- The keys of all hashes go with the contents under which their entries are filed. -/
def KeysFit (s : Store) : Prop :=
  ∀ v entries, s.datum v = .object (.hash entries) → ∀ e ∈ entries, K.fits e.content (s.datum e.key)

/-- Some values go on to fit the contents that they fit. -/
def KeepsKeys (P : Value → Prop) (s t : Store) : Prop := ∀ v c, P v → K.fits c (s.datum v) → K.fits c (t.datum v)

variable {K} {P : Value → Prop}

theorem keepsKeys_alloc : KeepsKeys K P s (s.alloc o).2 := by
  intro v c _ hv
  rw [datum_alloc (hasValue_of_key (K.isKey hv))]
  exact hv

/-- An object that is no key may be changed. -/
theorem keepsKeys_write (hid : ¬(s.datum (.ref id)).keyContent?.isSome) : KeepsKeys K P s (s.write id o) := by
  intro v c _ hv
  have hne : v ≠ .ref id := by
    rintro rfl
    exact hid (K.isKey hv)
  rw [datum_write_of_ne hne]
  exact hv

theorem KeysFit.alloc (hs : s.KeysFit K) (ho : ∀ entries, o = .hash entries →
    ∀ e ∈ entries, K.fits e.content (s.datum e.key)) : (s.alloc o).2.KeysFit K := by
  intro v entries hv e he
  refine keepsKeys_alloc (P := fun _ => True) _ _ trivial ?_
  rcases datum_alloc_cases hv with ⟨_, hnew⟩ | hold
  · exact ho entries hnew.symm e he
  · exact hs v entries hold e he

/-- A change that the keys survive, and after which the object has only entries that it had. -/
theorem KeysFit.write (hs : s.KeysFit K) (hkeeps : ∀ v entries, s.datum v = .object (.hash entries) →
      ∀ e ∈ entries, K.fits e.content (s.datum e.key) → K.fits e.content ((s.write id o).datum e.key))
    (ho : ∀ entries, o = .hash entries → ∃ all, s.datum (.ref id) = .object (.hash all) ∧ ∀ e ∈ entries, e ∈ all) :
    (s.write id o).KeysFit K := by
  intro v entries hv e he
  rcases datum_write_cases hv with ⟨_, hnew⟩ | ⟨_, hold⟩
  · obtain ⟨all, hall, hsub⟩ := ho entries hnew.symm
    exact hkeeps _ all hall e (hsub e he) (hs _ all hall e (hsub e he))
  · exact hkeeps v entries hold e he (hs v entries hold e he)

end Store

namespace Invariant

open Store

/-- Stores are well formed, and keys go with their contents. Keys in hand go on to do so. -/
def keyed (K : KeyRule) : Invariant where
  Holds s := s.WellFormed ∧ s.KeysFit K
  Later keys s t := s.Extends t ∧ KeepsKeys K (· ∈ keys) s t
  Quiet s t := s.Extends t ∧ KeepsKeys K (fun _ => True) s t
  guard s := { s.known with filed := fun c v => K.fits c (s.datum v) }
  refl _ s := ⟨.refl s, fun _ _ _ h => h⟩
  trans h₁ h₂ := ⟨h₁.1.trans h₂.1, fun v c hv h => h₂.2 v c hv (h₁.2 v c hv h)⟩
  mono h := ⟨h.1.known.value, h.1.known.frame, h.1.known.owner, h.1.known.maker, id⟩
  fewer hkeys h := ⟨h.1, fun v c hv => h.2 v c (hkeys hv)⟩
  quiet_refl s := ⟨.refl s, fun _ _ _ h => h⟩
  quiet_trans h₁ h₂ := ⟨h₁.1.trans h₂.1, fun v c hv h => h₂.2 v c hv (h₁.2 v c hv h)⟩
  quiet_later _ h := ⟨h.1, fun v c _ => h.2 v c trivial⟩
  filed_mono h hv := h.2 _ _ trivial hv
  filed_later hmem h hv := h.2 _ _ hmem hv
  null _ := trivial
  boolean _ _ := trivial
  owner_frame h := h.1
  owner_maker h := h.1
  object {s v o} hs _ ho := by
    have hobject := hs.1.object ho
    cases o with
    | hash entries =>
      exact ⟨fun e he => ⟨hs.2 v entries ho e he, (hobject.1 e he).key, (hobject.1 e he).value⟩, hobject.2⟩
    | _ => exact hobject
  parent hs hE hP := wellFormed.parent hs.1 hE hP
  binding hs _ hb := hs.1.binding hb
  filed _ _ hc := K.of_content hc
  filed_copy _ hv _ _ := by
    show K.fits _ _
    rw [datum_copyUpTo_key _ (K.isKey hv)]
    exact hv
  alloc {s o} hs ho := by
    have hknown : s.known.Object o := by
      cases o with
      | hash entries => exact ⟨fun e he => ⟨trivial, (ho.1 e he).key, (ho.1 e he).value⟩, ho.2⟩
      | _ => exact ho
    refine ⟨⟨hs.1.alloc hknown, hs.2.alloc ?_⟩, ⟨.alloc s o, keepsKeys_alloc⟩, hasValue_alloc_self⟩
    rintro entries rfl e he
    exact (ho.1 e he).filed
  newFrame hs hbinds hparent hbindings := by
    obtain ⟨hwf, hextends, hframe⟩ := wellFormed.newFrame hs.1 hbinds hparent hbindings
    exact ⟨⟨hwf, hs.2⟩, ⟨hextends, fun _ _ _ h => h⟩, hframe⟩
  set x hs _ hv := ⟨⟨hs.1.set x hv, hs.2⟩, .set _ _ _ _, fun _ _ _ h => h⟩
  erase {s id entries} c hs _ hh := by
    have hkeeps : KeepsKeys K (fun _ => True) s (s.write id (.hash (Entries.erase c entries))) :=
      keepsKeys_write (by simp [hh, Datum.keyContent?])
    refine ⟨⟨hs.1.erase hh c, hs.2.write (fun _ _ _ e _ h => hkeeps _ _ trivial h) ?_⟩, .write _ _ _, hkeeps⟩
    intro es hes
    cases hes
    exact ⟨entries, hh, fun e he => (List.mem_filter.1 he).1⟩
  print text hs := by
    obtain ⟨hwf, hextends⟩ := wellFormed.print text hs.1
    exact ⟨⟨hwf, hs.2⟩, hextends, fun _ _ _ h => h⟩
  request className hs := by
    obtain ⟨hwf, hextends⟩ := wellFormed.request className hs.1
    exact ⟨⟨hwf, hs.2⟩, hextends, fun _ _ _ h => h⟩

end Invariant

/-! ## Steps of keys -/

/-- Whether an object is a key of a hash, or a key in hand. -/
def Store.isKey (s : Store) (keys : List Value) (id : ObjectId) : Bool :=
  decide (.ref id ∈ keys) || s.objects.toList.any fun
    | .hash entries => entries.any fun e => decide (e.key = .ref id)
    | _ => false

theorem Store.not_isKey {s : Store} {keys : List Value} {id : ObjectId} (h : s.isKey keys id = false) :
    .ref id ∉ keys ∧ ∀ v entries, s.datum v = .object (.hash entries) → ∀ e ∈ entries, e.key ≠ .ref id := by
  obtain ⟨hkeys, hobjects⟩ := Bool.or_eq_false_iff.1 h
  refine ⟨of_decide_eq_false hkeys, fun v entries hv e he hkey => ?_⟩
  cases v with
  | null | boolean => cases hv
  | ref i =>
    obtain ⟨o, ho, hdatum⟩ := Store.datum_ref (Store.hasValue_of_datum hv)
    rw [hdatum] at hv
    cases hv
    have hmem : .hash entries ∈ s.objects.toList := Array.mem_toList_iff.2 (Array.mem_of_getElem? ho)
    exact List.any_eq_false.1 hobjects _ hmem (List.any_eq_true.2 ⟨e, he, decide_eq_true hkey⟩)

/-- `x++` or `x--` for an object that is a key. -/
def stepsKey (keys : List Value) (e : Expr) (E : FrameId) (s : Store) : Bool :=
  match e with
  | .increment x | .decrement x =>
    match s.get? E x with
    | some (.ref id) => s.isKey keys id
    | _ => false
  | _ => false

namespace Invariant

open Store

/-- Any step leaves an integer an integer. -/
theorem loose_steps (keys : List Value) (stop : Expr → FrameId → Store → Bool) :
    (keyed .loose).Steps keys stop := by
  refine steps_of_write fun {s E x id n} up m hs hid _ hn _ => ?_
  have hkeeps (v : Value) (c : HashKey) (hv : KeyRule.loose.fits c (s.datum v)) :
      KeyRule.loose.fits c ((s.write id (.integer m)).datum v) := by
    by_cases hne : v = .ref id
    · subst hne
      rw [datum_write_self hid]
      rw [hn] at hv
      rcases hv with hc | ⟨l, k, hc, _⟩
      · cases hc
        exact .inr ⟨n, m, rfl, rfl⟩
      · exact .inr ⟨l, m, hc, rfl⟩
    · rw [datum_write_of_ne hne]
      exact hv
  refine ⟨⟨hs.1.writeInteger hn m, hs.2.write (fun _ _ _ e _ h => hkeeps _ _ h) ?_⟩, .write _ _ _, ?_⟩
  · rintro entries h
    cases h
  · exact fun v c _ h => hkeeps v c h

/-- A step of an object that is no key leaves all keys what they are. -/
theorem exact_steps (keys : List Value) : (keyed .exact).Steps keys (stepsKey keys) := by
  refine steps_of_write fun {s E x id n} up m hs hid hget hn hstop => ?_
  have hnokey : s.isKey keys id = false := by
    cases up with
    | true => simpa [stepsKey, hget] using hstop
    | false => simpa [stepsKey, hget] using hstop
  obtain ⟨hkeys, hentries⟩ := not_isKey hnokey
  have hkeeps (v : Value) (hne : v ≠ .ref id) (c : HashKey) (hv : KeyRule.exact.fits c (s.datum v)) :
      KeyRule.exact.fits c ((s.write id (.integer m)).datum v) := by
    rw [datum_write_of_ne hne]
    exact hv
  refine ⟨⟨hs.1.writeInteger hn m, hs.2.write (fun v es hv e he h => ?_) ?_⟩, .write _ _ _, ?_⟩
  · exact hkeeps _ (hentries v es hv e he) _ h
  · rintro entries h
    cases h
  · exact fun v c hv h => hkeeps v (fun hne => hkeys (hne ▸ hv)) c h

end Invariant

/-! ## The hashes of reachable states -/

section Reachable

variable {s : Store} {v : Value} {entries : List HashEntry} {e : HashEntry}

theorem keysFit_start (K : KeyRule) : Session.start.store.KeysFit K := by
  intro v entries hv
  cases v with
  | null | boolean => cases hv
  | ref id => cases Store.hasValue_of_datum hv

theorem Reachable.keysFit (h : Reachable s) : s.KeysFit .loose :=
  (Invariant.reachable (I := Invariant.keyed .loose) (fun keys => Invariant.loose_steps keys _)
    ⟨Store.wellFormed_start, keysFit_start _⟩ Nat.one_pos h).1.2

theorem ReachableAvoiding.keysFit (h : ReachableAvoiding stepsKey s) : s.KeysFit .exact :=
  (Invariant.reachable (I := Invariant.keyed .exact) Invariant.exact_steps
    ⟨Store.wellFormed_start, keysFit_start _⟩ Nat.one_pos h).1.2

/-- A key of which the content is that of its entry leads to the value of the entry. -/
theorem Store.index_key (hh : s.datum v = .object (.hash entries)) (hsorted : Entries.Sorted entries) (he : e ∈ entries)
    (hc : (s.datum e.key).keyContent? = some e.content) : Operator.index s v e.key = .ok e.value := by
  unfold Operator.index
  rw [hh]
  dsimp only
  rw [hc]
  dsimp only
  rw [hsorted.find?_eq he]
  rfl

/-- **The keys of hashes.** In every reachable state the entries of a hash are in the order of the different contents
under which they are filed, and each key is one with that content or an integer in place of another. While no key is
stepped, each key has just that content, and leads to the value that is shown next to it. -/
theorem Store.hash_keys (hh : s.datum v = .object (.hash entries)) :
    (Reachable s → Entries.Sorted entries ∧
      ∀ e ∈ entries, Entries.find? e.content entries = some e ∧ KeyRule.loose.fits e.content (s.datum e.key)) ∧
    (ReachableAvoiding stepsKey s → Entries.Sorted entries ∧
      (∀ e ∈ entries, (s.datum e.key).keyContent? = some e.content ∧ Operator.index s v e.key = .ok e.value) ∧
      s.display v =
        Render.braces (Render.commas (entries.map fun e => s.display e.key ++ ": " ++ s.display e.value))) := by
  refine ⟨fun h => ?_, fun h => ?_⟩
  · have hsorted := h.wellFormed.sorted hh
    exact ⟨hsorted, fun e he => ⟨hsorted.find?_eq he, h.keysFit v entries hh e he⟩⟩
  · have hsorted := h.wellFormed.sorted hh
    refine ⟨hsorted, fun e he => ?_, h.wellFormed.display_hash hh⟩
    have hc : (s.datum e.key).keyContent? = some e.content := h.keysFit v entries hh e he
    exact ⟨hc, index_key hh hsorted he hc⟩

end Reachable

/-- The store after `var n = 1; n++; var h = {n: 10, 7: 20}; var m = 1; m++;`, in which no key is stepped. -/
def stepped : Store :=
  (Outcome.of (Eval.program (Eval.exprUntil (Library.ofUnits []) stepsKey 3 [])
    [.var "n" (.integer 1), .expr (.increment "n"),
      .var "h" (.hash [⟨.name "n", .integer 10⟩, ⟨.integer 7, .integer 20⟩]),
      .var "m" (.integer 1), .expr (.increment "m")]
    Session.start.frame) Session.start.store).2

theorem stepped_hash_keys :
    stepped.datum (.ref ⟨5⟩) = .object (.integer 2) ∧
      stepped.datum (.ref ⟨4⟩) =
        .object (.hash [⟨.integer 2, .ref ⟨0⟩, .ref ⟨1⟩⟩, ⟨.integer 7, .ref ⟨2⟩, .ref ⟨3⟩⟩]) ∧
      ReachableAvoiding stepsKey stepped ∧ Reachable stepped ∧
      Operator.index stepped (.ref ⟨4⟩) (.ref ⟨0⟩) = .ok (.ref ⟨1⟩) ∧
      Entries.find? (.integer 2) [⟨.integer 2, .ref ⟨0⟩, .ref ⟨1⟩⟩, ⟨.integer 7, .ref ⟨2⟩, .ref ⟨3⟩⟩] =
        some ⟨.integer 2, .ref ⟨0⟩, .ref ⟨1⟩⟩ := by
  have hh : stepped.datum (.ref ⟨4⟩) =
      .object (.hash [⟨.integer 2, .ref ⟨0⟩, .ref ⟨1⟩⟩, ⟨.integer 7, .ref ⟨2⟩, .ref ⟨3⟩⟩]) := rfl
  have havoiding : ReachableAvoiding stepsKey stepped := .run _ stepsKey (fun _ _ _ _ h => h) 3 _ .start
  have hreach : Reachable stepped := havoiding.reachable
  exact ⟨rfl, hh, havoiding, hreach, (((Store.hash_keys hh).2 havoiding).2.1 _ List.mem_cons_self).2,
    (((Store.hash_keys hh).1 hreach).2 _ List.mem_cons_self).1⟩

/-- The store after `var k = 1; var h = {k: 10, 2: 20}; k++;`, in which the hash is shown as `{2: 10, 2: 20}`. -/
def aliased : Store :=
  (Outcome.of (Eval.program (Eval.expr (Library.ofUnits []) 3)
    [.var "k" (.integer 1), .var "h" (.hash [⟨.name "k", .integer 10⟩, ⟨.integer 2, .integer 20⟩]),
      .expr (.increment "k")]
    Session.start.frame) Session.start.store).2

/-- A key that is stepped is no longer the content under which its entry is filed. -/
theorem aliased_not_coherent :
    ¬∀ (s : Store) (v : Value) (entries : List HashEntry) (e : HashEntry), Reachable s →
      s.datum v = .object (.hash entries) → e ∈ entries →
      (s.datum e.key).keyContent? = some e.content ∧ Operator.index s v e.key = .ok e.value := by
  intro h
  have hreach : Reachable aliased := Reachable.program .start _ _ _
  have hkey := (h aliased (.ref ⟨4⟩) _ ⟨.integer 1, .ref ⟨0⟩, .ref ⟨1⟩⟩ hreach rfl List.mem_cons_self).1
  have hnow : (aliased.datum (.ref ⟨0⟩)).keyContent? = some (.integer 2) := rfl
  rw [hnow] at hkey
  exact absurd hkey (by decide)

end Pron
