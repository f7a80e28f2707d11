import Mathlib.Data.Finmap
import Pron.Proofs.Atomic
import Pron.Proofs.WellFormed

/-!
# Hashes as finite maps

A hash stands for a finite map from the contents of keys to values (`Entries.mapping`). What the operations on hashes do
to such maps is said without entries and without evaluation, on what is seen of a store (`HashOp.meaning` on `Heap`); a
failure changes nothing there. What is run does just that, one operation after the other (`HashOp.run_realizes`,
`HashOp.runs_realize`), for entries that are sorted, as those of all reachable states are.

A hash is the value that refers to it. So two names for one hash see the same map, and hashes that are made of one
another by `add` have nothing to do with each other: a sequence of operations leaves alone what it does not remove from
(`HashOp.runs_untouched`).
-/

namespace Pron

/-- Finite maps from the contents of keys to values. -/
abbrev Mapping := Finmap fun _ : HashKey => Value

/-! ## Entries -/

namespace Entries

variable {entries : List HashEntry} {c : HashKey}

/-- The map that entries stand for. -/
def mapping (entries : List HashEntry) : Mapping :=
  (entries.map fun e => (⟨e.content, e.value⟩ : Sigma fun _ : HashKey => Value)).toFinmap

/-- The map has the values of the entries. -/
theorem lookup_mapping (c : HashKey) (entries : List HashEntry) :
    (mapping entries).lookup c = (find? c entries).map HashEntry.value := by
  rw [mapping, Finmap.dlookup_list_toFinmap]
  induction entries with
  | nil => rfl
  | cons e rest ih =>
    by_cases h : e.content = c
    · subst h
      simp [find?]
    · rw [List.map_cons, List.dlookup_cons_ne _ _ (Ne.symm h), ih]
      simp [find?, h]

/-- The map has the keys of the entries. -/
theorem mem_mapping : c ∈ mapping entries ↔ (find? c entries).isSome := by
  rw [← Finmap.lookup_isSome, lookup_mapping, Option.isSome_map]

/-- An entry that is inserted replaces the one with its key. -/
theorem mapping_insert (e : HashEntry) (entries : List HashEntry) :
    mapping (insert e entries) = (mapping entries).insert e.content e.value := by
  refine Finmap.ext_lookup fun c => ?_
  rw [lookup_mapping]
  by_cases hc : c = e.content
  · subst hc
    rw [find?_insert_self, Finmap.lookup_insert]
    rfl
  · rw [find?_insert_of_ne hc, Finmap.lookup_insert_of_ne _ hc, lookup_mapping]

/-- The entry of a key is taken out. -/
theorem mapping_erase (c : HashKey) (entries : List HashEntry) :
    mapping (erase c entries) = (mapping entries).erase c := by
  refine Finmap.ext_lookup fun d => ?_
  rw [lookup_mapping]
  by_cases hd : d = c
  · subst hd
    rw [find?_erase_self, Finmap.lookup_erase]
    rfl
  · rw [find?_erase_of_ne hd, Finmap.lookup_erase_ne hd, lookup_mapping]

/-- The map is empty where there are no entries. -/
theorem mapping_eq_empty : mapping entries = ∅ ↔ entries = [] := by
  refine ⟨fun h => ?_, fun h => h ▸ rfl⟩
  cases entries with
  | nil => rfl
  | cons e rest =>
    have hlookup := lookup_mapping e.content (e :: rest)
    rw [h, Finmap.lookup_empty] at hlookup
    simp [find?] at hlookup

/-- Entries are inserted one after the other, so of equal keys the last one counts. -/
theorem mapping_foldl (es entries : List HashEntry) :
    mapping (es.foldl (fun entries e => insert e entries) entries) =
      es.foldl (fun m e => m.insert e.content e.value) (mapping entries) := by
  induction es generalizing entries with
  | nil => rfl
  | cons e es ih => rw [List.foldl_cons, List.foldl_cons, ih, mapping_insert]

/-- No key occurs twice in sorted entries. -/
theorem Sorted.card_keys (h : Sorted entries) : (mapping entries).keys.card = entries.length := by
  have hnodup : (entries.map HashEntry.content).Nodup := List.pairwise_map.2 (h.imp HashKey.ne_of_lt)
  have hkeys : (mapping entries).keys = (entries.map HashEntry.content).toFinset := by
    ext c
    rw [Finmap.mem_keys, mem_mapping, find?, List.find?_isSome, List.mem_toFinset, List.mem_map]
    simp
  rw [hkeys, List.toFinset_card_of_nodup hnodup, List.length_map]

end Entries

/-! ## What is seen of a store -/

/-- What the operations on hashes see of a value: the content of a key, a map, or something else of some type. -/
inductive Aspect
  | key (content : HashKey)
  | map (m : Mapping)
  | other (type : DataType)

/-- The map that is seen. -/
def Aspect.map? : Aspect → Option Mapping
  | map m => some m
  | _ => none

theorem Aspect.map?_eq_some {a : Aspect} {m : Mapping} : a.map? = some m ↔ a = .map m := by
  cases a <;> simp [map?]

/-- The content of a key, or the error for what is none. -/
def Aspect.content : Aspect → Except RuntimeError HashKey
  | key c => .ok c
  | map _ => .error (.unusableKey .hash)
  | other type => .error (.unusableKey type)

/-- What the operations on hashes see of a store: the place of the next object, and the values. -/
@[ext]
structure Heap where
  next : Nat
  seen : Value → Aspect

namespace Heap

variable (A : Heap)

/-- A new object, next to those that are there. -/
def make (x : Aspect) : Value × Heap := (.ref ⟨A.next⟩, ⟨A.next + 1, Function.update A.seen (.ref ⟨A.next⟩) x⟩)

/-- Another map for a hash. -/
def put (v : Value) (m : Mapping) : Heap := { A with seen := Function.update A.seen v (.map m) }

/-- Enters pairs of keys and values one after the other. -/
def enter : List (Value × Value) → Mapping → Except RuntimeError Mapping
  | [], m => return m
  | (k, v) :: rest, m => do
    let c ← (A.seen k).content
    enter rest (m.insert c v)

end Heap

/-- What is seen of a datum. -/
def Datum.seen (d : Datum) : Aspect :=
  match d.keyContent?, d with
  | some c, _ => .key c
  | none, .object (.hash entries) => .map (Entries.mapping entries)
  | none, d => .other d.type

namespace Datum

variable {d : Datum} {m : Mapping} {c : HashKey}

/-- A map is seen of a hash only. -/
theorem seen_map? : d.seen.map? = some m ↔ ∃ entries, d = .object (.hash entries) ∧ Entries.mapping entries = m := by
  rcases d with - | b | o
  · simp [seen, keyContent?, Aspect.map?]
  · simp [seen, keyContent?, Aspect.map?]
  · cases o <;> simp [seen, keyContent?, Aspect.map?]

/-- The content of a key is seen of integers, texts and truth values. -/
theorem seen_content_of_some (h : d.keyContent? = some c) : d.seen.content = .ok c := by
  unfold seen
  rw [h]
  rfl

theorem seen_content_of_none (h : d.keyContent? = none) : d.seen.content = .error (.unusableKey d.type) := by
  rcases d with - | b | o
  · rfl
  · cases h
  · cases o with
    | integer | text => cases h
    | _ => rfl

end Datum

/-- What is seen of a store. -/
def Store.heap (s : Store) : Heap := ⟨s.objects.size, fun v => (s.datum v).seen⟩

namespace Store

variable {s : Store} {v k : Value} {id : ObjectId} {o : Object} {m : Mapping}

/-- A new object is seen next to all others. -/
theorem heap_alloc (s : Store) (o : Object) : (s.alloc o).2.heap = (s.heap.make (Datum.object o).seen).2 := by
  refine Heap.ext (Array.size_push _) (funext fun v => ?_)
  show ((s.alloc o).2.datum v).seen = Function.update s.heap.seen (s.alloc o).1 (Datum.object o).seen v
  by_cases hv : v = (s.alloc o).1
  · rw [hv, datum_alloc_self, Function.update_self]
  · rw [datum_alloc_of_ne hv, Function.update_of_ne hv]
    rfl

/-- Entries that are written over are seen as a change of the map. -/
theorem heap_write (hid : s.HasValue (.ref id)) (entries : List HashEntry) :
    (s.write id (.hash entries)).heap = s.heap.put (.ref id) (Entries.mapping entries) := by
  refine Heap.ext size_write (funext fun v => ?_)
  show ((s.write id (.hash entries)).datum v).seen = Function.update s.heap.seen (.ref id) _ v
  by_cases hv : v = .ref id
  · rw [hv, datum_write_self hid, Function.update_self]
    rfl
  · rw [datum_write_of_ne hv, Function.update_of_ne hv]
    rfl

end Store

/-! ## Operations -/

/-- Operations on hashes, with values that are at hand. The parts of a literal are expressions, of which the values are
given. -/
inductive HashOp
  | literal (given : Expr → Value) (pairs : List KeyValue)
  | add (h k v : Value)
  | remove (h k : Value)
  | index (h k : Value)
  | len (h : Value)

namespace HashOp

/-- What is to come of an operation on a hash: a value and another heap, or an error and no change. -/
def meaning (A : Heap) : HashOp → Option (Except RuntimeError (Value × Heap))
  | literal given pairs => some do
    let m ← A.enter (pairs.map fun p => (given p.key, given p.value)) ∅
    return A.make (.map m)
  | add h k v => (A.seen h).map?.map fun m => do
    let c ← (A.seen k).content
    return A.make (.map (m.insert c v))
  | remove h k => (A.seen h).map?.map fun m =>
    if m = ∅ then .error .emptyHash
    else do
      let c ← (A.seen k).content
      if c ∈ m.keys then return (h, A.put h (m.erase c)) else throw .noSuchKey
  | index h k => (A.seen h).map?.map fun m => do
    let c ← (A.seen k).content
    return ((m.lookup c).getD .null, A)
  | len h => (A.seen h).map?.map fun m => .ok (A.make (.key (.integer (.ofNat m.keys.card))))

/-- What is run. -/
def run : HashOp → Eval Value
  | literal given pairs => Eval.hashPairs (fun e _ => return given e) pairs [] ⟨0⟩
  | add h k v => Builtin.add.call [h, k, v]
  | remove h k => Builtin.remove.call [h, k]
  | index h k => do Eval.ofExcept (Operator.index (← get) h k)
  | len h => Builtin.len.call [h]

end HashOp

/-! ## Single operations -/

/-- The entries of all hashes are sorted. -/
def Store.Ordered (s : Store) : Prop := ∀ v entries, s.datum v = .object (.hash entries) → Entries.Sorted entries

namespace Store.Ordered

variable {s : Store} {id : ObjectId} {o : Object} {entries : List HashEntry}

/-- A new object is in order if it is no hash or a sorted one. -/
theorem alloc (hs : s.Ordered) (ho : ∀ entries, o = .hash entries → Entries.Sorted entries) :
    (s.alloc o).2.Ordered := by
  intro v entries hv
  rcases datum_alloc_cases hv with ⟨_, hnew⟩ | hold
  · exact ho entries hnew.symm
  · exact hs v entries hold

/-- A hash may be written over by sorted entries. -/
theorem write (hs : s.Ordered) (hentries : Entries.Sorted entries) : (s.write id (.hash entries)).Ordered := by
  intro v es hv
  rcases datum_write_cases hv with ⟨_, hnew⟩ | ⟨_, hold⟩
  · cases hnew
    exact hentries
  · exact hs v es hold

end Store.Ordered

/-- One pair of a literal of which the values are given. -/
theorem Eval.hashPairs_given (s : Store) (given : Expr → Value) (p : KeyValue) (rest : List KeyValue)
    (entries : List HashEntry) : Eval.hashPairs (fun e _ => return given e) (p :: rest) entries ⟨0⟩ s =
      (match (s.datum (given p.key)).keyContent? with
      | some c => Eval.hashPairs (fun e _ => return given e) rest
          (Entries.insert ⟨c, given p.key, given p.value⟩ entries) ⟨0⟩ s
      | none => .error (.failed (.unusableKey (s.datum (given p.key)).type)) s) := by
  conv_lhs => unfold Eval.hashPairs
  rw [pure_bind, datum_bind]
  cases (s.datum (given p.key)).keyContent? <;> rfl

/-- An action does what is to come of it, and leaves hashes in order. -/
def Realizes (s : Store) (x : Eval Value) : Except RuntimeError (Value × Heap) → Prop
  | .ok (v, A) => ∃ t, x s = .ok v t ∧ t.heap = A ∧ t.Ordered
  | .error e => x s = .error (.failed e) s

namespace Realizes

open Eval

variable {s : Store} {o : Object} {entries : List HashEntry}

/-- What does the same realizes the same. -/
theorem congr {x y : Eval Value} {r : Except RuntimeError (Value × Heap)} (h : Realizes s y r) (hxy : x s = y s) :
    Realizes s x r := by
  unfold Realizes at h ⊢
  rwa [hxy]

/-- A new object is seen as what it is. -/
theorem alloc (hs : s.Ordered) (ho : ∀ entries, o = .hash entries → Entries.Sorted entries) :
    Realizes s (Eval.alloc o) (.ok (s.heap.make (Datum.object o).seen)) :=
  ⟨_, rfl, Store.heap_alloc s o, hs.alloc ho⟩

/-- A new hash is seen as the map of its entries. -/
theorem allocHash (hs : s.Ordered) (hentries : Entries.Sorted entries) :
    Realizes s (Eval.alloc (.hash entries)) (.ok (s.heap.make (.map (Entries.mapping entries)))) :=
  .alloc hs fun _ h => by
    cases h
    exact hentries

/-- The pairs of a literal are entered one after the other, up to a key that can be none. -/
theorem hashPairs (hs : s.Ordered) (given : Expr → Value) (pairs : List KeyValue) (hentries : Entries.Sorted entries) :
    Realizes s (Eval.hashPairs (fun e _ => return given e) pairs entries ⟨0⟩) (do
      let m ← s.heap.enter (pairs.map fun p => (given p.key, given p.value)) (Entries.mapping entries)
      return s.heap.make (.map m)) := by
  induction pairs generalizing entries with
  | nil => exact allocHash hs hentries
  | cons p rest ih =>
    have hrun := hashPairs_given s given p rest entries
    rw [List.map_cons, Heap.enter]
    cases hc : (s.datum (given p.key)).keyContent? with
    | none =>
      have hkey : (s.heap.seen (given p.key)).content = .error (.unusableKey (s.datum (given p.key)).type) :=
        Datum.seen_content_of_none hc
      rw [hc] at hrun
      rw [hkey]
      exact hrun
    | some c =>
      have hkey : (s.heap.seen (given p.key)).content = .ok c := Datum.seen_content_of_some hc
      have hrest := ih (hentries.insert ⟨c, given p.key, given p.value⟩)
      rw [Entries.mapping_insert] at hrest
      rw [hc] at hrun
      rw [hkey]
      exact hrest.congr hrun

/-- A new hash is the old map with one more key, or with another value for one. -/
theorem add (hs : s.Ordered) {h : Value} (hh : s.datum h = .object (.hash entries)) (k v : Value) :
    Realizes s (Builtin.add.call [h, k, v]) (do
      let c ← (s.heap.seen k).content
      return s.heap.make (.map ((Entries.mapping entries).insert c v))) := by
  have hadd : Builtin.add.call [h, k, v] s = (match (s.datum k).keyContent? with
      | some c => Eval.alloc (.hash (Entries.insert ⟨c, k, v⟩ entries))
      | none => fail (.unusableKey (s.datum k).type)) s := by
    show Builtin.addTo h [k, v] s = _
    unfold Builtin.addTo
    rw [datum_bind, hh]
    rfl
  refine congr ?_ hadd
  cases hc : (s.datum k).keyContent? with
  | none =>
    have hkey : (s.heap.seen k).content = .error (.unusableKey (s.datum k).type) := Datum.seen_content_of_none hc
    rw [hkey]
    exact rfl
  | some c =>
    have hkey : (s.heap.seen k).content = .ok c := Datum.seen_content_of_some hc
    rw [hkey]
    have hnew := allocHash hs ((hs h entries hh).insert ⟨c, k, v⟩)
    rw [Entries.mapping_insert] at hnew
    exact hnew

/-- The hash itself loses a key. An empty hash, a key that is not there and a key that can be none are refused. -/
theorem remove (hs : s.Ordered) {h : Value} (hh : s.datum h = .object (.hash entries)) (k : Value) :
    Realizes s (Builtin.remove.call [h, k]) (
      if Entries.mapping entries = ∅ then .error .emptyHash
      else do
        let c ← (s.heap.seen k).content
        if c ∈ (Entries.mapping entries).keys then return (h, s.heap.put h ((Entries.mapping entries).erase c))
        else throw .noSuchKey) := by
  cases h with
  | null | boolean => cases hh
  | ref id =>
    have hremove : Builtin.remove.call [.ref id, k] s = Builtin.removeEntry id entries k s :=
      Builtin.removeFrom_hash hh k
    -- an empty hash is refused before the key is looked at
    by_cases hempty : entries = []
    · subst hempty
      exact hremove
    rw [if_neg (mt Entries.mapping_eq_empty.1 hempty)]
    rw [Builtin.removeEntry_eq hempty] at hremove
    cases hc : (s.datum k).keyContent? with
    | none =>
      have hkey : (s.heap.seen k).content = .error (.unusableKey (s.datum k).type) := Datum.seen_content_of_none hc
      rw [hc] at hremove
      rw [hkey]
      exact hremove
    | some c =>
      have hkey : (s.heap.seen k).content = .ok c := Datum.seen_content_of_some hc
      have hmem : c ∈ (Entries.mapping entries).keys ↔ (Entries.find? c entries).isSome :=
        Finmap.mem_keys.trans Entries.mem_mapping
      rw [hc] at hremove
      rw [hkey]
      show Realizes s _ (if c ∈ (Entries.mapping entries).keys then _ else _)
      by_cases hfound : (Entries.find? c entries).isSome
      · rw [if_pos (hmem.2 hfound)]
        have hid : s.HasValue (.ref id) := Store.hasValue_of_datum hh
        have hheap := Store.heap_write hid (Entries.erase c entries)
        rw [Entries.mapping_erase] at hheap
        exact ⟨_, hremove.trans (if_pos hfound), hheap, hs.write ((hs _ _ hh).erase c)⟩
      · rw [if_neg (mt hmem.1 hfound)]
        exact hremove.trans (if_neg hfound)

/-- A lookup gives the value of a key, or `null`. -/
theorem index (hs : s.Ordered) {h : Value} (hh : s.datum h = .object (.hash entries)) (k : Value) :
    Realizes s (do ofExcept (Operator.index (← get) h k)) (do
      let c ← (s.heap.seen k).content
      return (((Entries.mapping entries).lookup c).getD .null, s.heap)) := by
  have hindex : (do ofExcept (Operator.index (← get) h k) : Eval Value) s = (match (s.datum k).keyContent? with
      | some c => ofExcept (.ok (((Entries.find? c entries).map HashEntry.value).getD .null))
      | none => ofExcept (.error (.unusableKey (s.datum k).type))) s := by
    rw [get_bind]
    unfold Operator.index
    rw [hh]
    dsimp only
    cases (s.datum k).keyContent? <;> rfl
  refine congr ?_ hindex
  cases hc : (s.datum k).keyContent? with
  | none =>
    have hkey : (s.heap.seen k).content = .error (.unusableKey (s.datum k).type) := Datum.seen_content_of_none hc
    rw [hkey]
    exact rfl
  | some c =>
    have hkey : (s.heap.seen k).content = .ok c := Datum.seen_content_of_some hc
    rw [hkey]
    dsimp only
    rw [← Entries.lookup_mapping]
    exact ⟨s, rfl, rfl, hs⟩

/-- The length of a hash is the number of its keys. -/
theorem len (hs : s.Ordered) {h : Value} (hh : s.datum h = .object (.hash entries)) :
    Realizes s (Builtin.len.call [h])
      (.ok (s.heap.make (.key (.integer (.ofNat (Entries.mapping entries).keys.card))))) := by
  have hlen : Builtin.len.call [h] s = Eval.alloc (.integer (.ofNat entries.length)) s := by
    show Builtin.lenOf h s = _
    unfold Builtin.lenOf
    rw [datum_bind, hh]
  rw [(hs h entries hh).card_keys]
  exact congr (alloc hs fun _ h => by cases h) hlen

end Realizes

/-- Operations on hashes do what is to come of them. -/
theorem HashOp.run_realizes {s : Store} (hs : s.Ordered) {op : HashOp} {r : Except RuntimeError (Value × Heap)}
    (h : op.meaning s.heap = some r) : Realizes s op.run r := by
  cases op with
  | literal given pairs =>
    cases h
    exact .hashPairs hs given pairs .nil
  | add h' k v =>
    obtain ⟨m, hm, rfl⟩ := Option.map_eq_some_iff.1 h
    obtain ⟨entries, hh, rfl⟩ := Datum.seen_map?.1 hm
    exact .add hs hh k v
  | remove h' k =>
    obtain ⟨m, hm, rfl⟩ := Option.map_eq_some_iff.1 h
    obtain ⟨entries, hh, rfl⟩ := Datum.seen_map?.1 hm
    exact .remove hs hh k
  | index h' k =>
    obtain ⟨m, hm, rfl⟩ := Option.map_eq_some_iff.1 h
    obtain ⟨entries, hh, rfl⟩ := Datum.seen_map?.1 hm
    exact .index hs hh k
  | len h' =>
    obtain ⟨m, hm, rfl⟩ := Option.map_eq_some_iff.1 h
    obtain ⟨entries, hh, rfl⟩ := Datum.seen_map?.1 hm
    exact .len hs hh

/-! ## Sequences of operations -/

/-- The outcome of an operation and the heap after it, which a failure does not change. -/
def Heap.after (A : Heap) : Except RuntimeError (Value × Heap) → Outcome × Heap
  | .ok (v, B) => (.value v, B)
  | .error e => (.failed e, A)

/-- What is to come of a sequence of operations on hashes. -/
def Heap.runs : List HashOp → Heap → Option (List Outcome × Heap)
  | [], A => some ([], A)
  | op :: ops, A => do
    let r ← op.meaning A
    let (outcomes, B) ← runs ops (A.after r).2
    return ((A.after r).1 :: outcomes, B)

/-- Runs operations one after the other. -/
def HashOp.runs : List HashOp → Store → List Outcome × Store
  | [], s => ([], s)
  | op :: ops, s =>
    let first := Outcome.of op.run s
    let rest := runs ops first.2
    (first.1 :: rest.1, rest.2)

/-- What is run has the outcome that its meaning has, and keeps the order of entries. -/
theorem Realizes.outcome {s : Store} {x : Eval Value} {r : Except RuntimeError (Value × Heap)} (hs : s.Ordered)
    (h : Realizes s x r) :
    ((Outcome.of x s).1, (Outcome.of x s).2.heap) = s.heap.after r ∧ (Outcome.of x s).2.Ordered := by
  rcases r with e | ⟨v, A⟩
  · have hrun : Outcome.of x s = (.failed e, s) := by
      unfold Outcome.of
      rw [show x s = _ from h]
    rw [hrun]
    exact ⟨rfl, hs⟩
  · obtain ⟨t, hx, rfl, ht⟩ := h
    have hrun : Outcome.of x s = (.value v, t) := by
      unfold Outcome.of
      rw [hx]
    rw [hrun]
    exact ⟨rfl, ht⟩

/-- Sequences of operations on hashes do what is to come of them. -/
theorem HashOp.runs_realize {ops : List HashOp} {s : Store} (hs : s.Ordered) {outcomes : List Outcome} {A : Heap}
    (h : s.heap.runs ops = some (outcomes, A)) : (runs ops s).1 = outcomes ∧ (runs ops s).2.heap = A := by
  induction ops generalizing s outcomes with
  | nil =>
    cases h
    exact ⟨rfl, rfl⟩
  | cons op ops ih =>
    obtain ⟨r, hr, h⟩ := Option.bind_eq_some_iff.1 h
    obtain ⟨⟨rest, B⟩, hrest, h⟩ := Option.bind_eq_some_iff.1 h
    cases h
    -- the other operations start in the store of which the heap after the first one is seen
    obtain ⟨hafter, ht⟩ := (run_realizes hs hr).outcome hs
    rw [← hafter] at hrest ⊢
    obtain ⟨houtcomes, hheap⟩ := ih ht hrest
    exact ⟨congrArg _ houtcomes, hheap⟩

/-! ## What operations leave alone -/

/-- A literal makes one new object, or fails and makes none. -/
theorem Eval.hashPairs_atomic (s : Store) (given : Expr → Value) (pairs : List KeyValue) (entries : List HashEntry) :
    Atomic s (Eval.hashPairs (fun e _ => return given e) pairs entries ⟨0⟩) fun _ t => ∃ o, t = (s.alloc o).2 := by
  induction pairs generalizing entries with
  | nil => exact .inr ⟨_, _, rfl, _, rfl⟩
  | cons p rest ih =>
    unfold Atomic
    rw [hashPairs_given]
    cases (s.datum (given p.key)).keyContent? with
    | none => exact .inl ⟨_, rfl⟩
    | some c => exact ih _

namespace HashOp

variable {s : Store} {u : Value}

/-- An operation leaves alone what it does not remove from. -/
theorem run_untouched (op : HashOp) (hu : s.HasValue u) (hop : ∀ k, op ≠ .remove u k) :
    s.Leaves (Outcome.of op.run s).2 u := by
  have hcall (b : Builtin) (arguments : List Value) (hb : ∀ k, b = .remove → arguments ≠ [u, k]) :
      s.Leaves (Outcome.of (b.call arguments) s).2 u := by
    refine (Builtin.call_atomic b arguments s).leaves hu fun v t ht => ?_
    rcases ht.leaves hu with hleaves | ⟨k, entries, hremove, harguments, _⟩
    · exact hleaves
    · exact absurd harguments (hb k hremove)
  cases op with
  | literal given pairs =>
    refine (Eval.hashPairs_atomic s given pairs []).leaves hu ?_
    rintro v _ ⟨o, rfl⟩
    exact ⟨Store.hasValue_alloc hu, Store.datum_alloc hu⟩
  | add h k v => exact hcall .add [h, k, v] fun _ hb => absurd hb (by decide)
  | remove h k =>
    refine hcall .remove [h, k] fun k' _ heq => ?_
    cases heq
    exact hop k rfl
  | index h k =>
    have hstore : (Outcome.of (index h k).run s).2 = s := by
      have hrun : (index h k).run s = Eval.ofExcept (Operator.index s h k) s := rfl
      rw [Outcome.of, hrun]
      cases Operator.index s h k <;> rfl
    rw [hstore]
    exact ⟨hu, rfl⟩
  | len h => exact hcall .len [h] fun _ hb => absurd hb (by decide)

/-- A sequence of operations leaves alone what it does not remove from. -/
theorem runs_untouched {ops : List HashOp} (hu : s.HasValue u) (hops : ∀ k, .remove u k ∉ ops) :
    (runs ops s).2.datum u = s.datum u := by
  induction ops generalizing s with
  | nil => rfl
  | cons op ops ih =>
    obtain ⟨hut, hdatum⟩ := run_untouched op hu fun k heq => hops k (heq ▸ List.mem_cons_self)
    exact (ih hut fun k hk => hops k (List.mem_cons_of_mem _ hk)).trans hdatum

end HashOp

/-! ## Literals -/

namespace Eval

variable {rec : Expr → FrameId → Eval Value} {E : FrameId} {s : Store}

/-- Evaluates the pairs of a literal one after the other, each key before its value. An entry is filed under the content
that its key has when it is evaluated. -/
def entriesOf (rec : Expr → FrameId → Eval Value) : List KeyValue → FrameId → Eval (List HashEntry)
  | [], _ => return []
  | p :: rest, E => do
    let key ← rec p.key E
    let d ← datum key
    match d.keyContent? with
    | none => fail (.unusableKey d.type)
    | some content =>
      let value ← rec p.value E
      let es ← entriesOf rec rest E
      return ⟨content, key, value⟩ :: es

/-- A literal evaluates its pairs first to last and enters them after that. -/
theorem hashPairs_eq (rec : Expr → FrameId → Eval Value) (pairs : List KeyValue) (entries : List HashEntry)
    (E : FrameId) : hashPairs rec pairs entries E = entriesOf rec pairs E >>= fun es =>
      alloc (.hash (es.foldl (fun entries e => Entries.insert e entries) entries)) := by
  induction pairs generalizing entries with
  | nil => rfl
  | cons p rest ih =>
    unfold hashPairs entriesOf
    rw [bind_assoc]
    refine bind_congr fun key => ?_
    rw [bind_assoc]
    refine bind_congr fun d => ?_
    cases d.keyContent? with
    | none => rfl
    | some c =>
      dsimp only
      rw [bind_assoc]
      refine bind_congr fun value => ?_
      rw [ih, bind_assoc]
      rfl

end Eval

/-- The content of a key tells what the key is. -/
theorem Datum.eq_of_keyContent? {d e : Datum} {c : HashKey} (hd : d.keyContent? = some c)
    (he : e.keyContent? = some c) : d = e := by
  unfold keyContent? at hd he
  split at hd <;> split at he <;> cases hd <;> cases he <;> rfl

/-! ## The laws -/

/-- What is true of hashes and of built-in functions in a store. -/
structure Store.HashLaws (s : Store) : Prop where
  /-- Sequences of operations on hashes have the outcomes that they have on finite maps, and leave the hashes so. -/
  runs {ops : List HashOp} {outcomes : List Outcome} {A : Heap} : s.heap.runs ops = some (outcomes, A) →
    (HashOp.runs ops s).1 = outcomes ∧ (HashOp.runs ops s).2.heap = A
  /-- No sequence of operations changes what it does not remove from. -/
  untouched {ops : List HashOp} {u : Value} : s.HasValue u → (∀ k, .remove u k ∉ ops) →
    (HashOp.runs ops s).2.datum u = s.datum u
  /-- The hash that `add` gives is a new one. Whatever is removed from it later does not show in the old one, nor the
  other way around. -/
  add {h k v : Value} {m : Mapping} {c : HashKey} : s.heap.seen h = .map m → s.heap.seen k = .key c →
    ∃ g t, Builtin.add.call [h, k, v] s = .ok g t ∧ ¬s.HasValue g ∧
      (∀ ops, (∀ k, .remove h k ∉ ops) → (HashOp.runs ops t).2.heap.seen h = .map m) ∧
      ∀ ops, (∀ k, .remove g k ∉ ops) → (HashOp.runs ops t).2.heap.seen g = .map (m.insert c v)
  /-- A literal evaluates its pairs one after the other. If all can be entered, it gives a new hash, for the map into
  which they are entered in this order. -/
  literal (library : Library) (n : Nat) (pairs : List KeyValue) (E : FrameId) :
    (∀ es t, Eval.entriesOf (Eval.expr library n) pairs E s = .ok es t →
      ∃ h u, Eval.expr library (n + 1) (.hash pairs) E s = .ok h u ∧ t.Adds u ∧ ¬t.HasValue h ∧
        u.heap.seen h = .map (es.foldl (fun m e => m.insert e.content e.value) ∅)) ∧
    ∀ stop t, Eval.entriesOf (Eval.expr library n) pairs E s = .error stop t →
      Eval.expr library (n + 1) (.hash pairs) E s = .error stop t
  /-- Keys are the same when they have one type and one content. -/
  keys {u v : Value} {c d : HashKey} : (s.datum u).keyContent? = some c → (s.datum v).keyContent? = some d →
    (c = d ↔ s.datum u = s.datum v) ∧ ((s.datum u).type ≠ (s.datum v).type → c ≠ d)
  /-- A built-in function that fails changes nothing. -/
  fails {b : Builtin} {arguments : List Value} {stop : Stop} {t : Store} : b.call arguments s = .error stop t →
    t = s ∧ ∃ e, stop = .failed e
  /-- A built-in function that does not fail does one thing. -/
  succeeds {b : Builtin} {arguments : List Value} {v : Value} {t : Store} : b.call arguments s = .ok v t →
    b.Does s arguments v t
  /-- Of what is there, a built-in function changes at most the hash that something is removed from. -/
  leaves {b : Builtin} {arguments : List Value} {v u : Value} {t : Store} : b.call arguments s = .ok v t →
    s.HasValue u → s.Leaves t u ∨
      ∃ k entries, b = .remove ∧ arguments = [u, k] ∧ s.datum u = .object (.hash entries)

namespace Store

variable {s t : Store} {h k v : Value} {m : Mapping} {c d : HashKey}

/-- A map is seen of a value that refers to a hash with this map. -/
theorem seen_eq_map :
    s.heap.seen h = .map m ↔ ∃ entries, s.datum h = .object (.hash entries) ∧ Entries.mapping entries = m :=
  Aspect.map?_eq_some.symm.trans Datum.seen_map?

/-- A hash that nothing is removed from stays the same map. -/
theorem seen_of_untouched (hh : s.heap.seen h = .map m) {ops : List HashOp} (hops : ∀ k, .remove h k ∉ ops) :
    (HashOp.runs ops s).2.heap.seen h = .map m := by
  obtain ⟨entries, hentries, -⟩ := seen_eq_map.1 hh
  have hdatum := HashOp.runs_untouched (hasValue_of_datum hentries) hops
  show ((HashOp.runs ops s).2.datum h).seen = .map m
  rw [hdatum]
  exact hh

/-- The hash that `add` gives is new, and the old one has the map it had. -/
theorem Ordered.add_apart (hs : s.Ordered) (hh : s.heap.seen h = .map m) (hk : s.heap.seen k = .key c) (v : Value) :
    ∃ g t, Builtin.add.call [h, k, v] s = .ok g t ∧ ¬s.HasValue g ∧ t.heap.seen h = .map m ∧
      t.heap.seen g = .map (m.insert c v) := by
  obtain ⟨entries, hentries, rfl⟩ := seen_eq_map.1 hh
  have hadd := Realizes.add hs hentries k v
  rw [hk] at hadd
  obtain ⟨t, hrun, hheap, -⟩ := hadd
  -- the old hash was there before the new one got its place
  have hnew : ¬s.HasValue (.ref ⟨s.objects.size⟩) := Nat.lt_irrefl _
  have hne : h ≠ .ref ⟨s.objects.size⟩ := fun heq => hnew (heq ▸ hasValue_of_datum hentries)
  refine ⟨_, t, hrun, hnew, ?_, ?_⟩
  · rw [hheap]
    exact (Function.update_of_ne hne _ _).trans hh
  · rw [hheap]
    exact Function.update_self _ _ _

/-- A literal stands for the map in which its pairs are entered in order. -/
theorem literal_map (library : Library) (n : Nat) (pairs : List KeyValue) (E : FrameId) {es : List HashEntry}
    (hes : Eval.entriesOf (Eval.expr library n) pairs E s = .ok es t) :
    ∃ h u, Eval.expr library (n + 1) (.hash pairs) E s = .ok h u ∧ t.Adds u ∧ ¬t.HasValue h ∧
      u.heap.seen h = .map (es.foldl (fun m e => m.insert e.content e.value) ∅) := by
  let o : Object := .hash (es.foldl (fun entries e => Entries.insert e entries) [])
  have hrun : Eval.expr library (n + 1) (.hash pairs) E s = .ok (t.alloc o).1 (t.alloc o).2 := by
    show Eval.hashPairs (Eval.expr library n) pairs [] E s = _
    rw [Eval.hashPairs_eq, Eval.bind_of_ok hes]
    rfl
  have hmap : (Datum.object o).seen = .map (es.foldl (fun m e => m.insert e.content e.value) ∅) :=
    congrArg Aspect.map (Entries.mapping_foldl es [])
  refine ⟨_, _, hrun, .alloc t o, Nat.lt_irrefl _, ?_⟩
  show ((t.alloc o).2.datum (t.alloc o).1).seen = _
  rw [datum_alloc_self, hmap]

/-- Two keys have the same content if and only if they are the same datum. -/
theorem keys_eq_iff (hh : (s.datum h).keyContent? = some c) (hk : (s.datum k).keyContent? = some d) :
    c = d ↔ s.datum h = s.datum k := by
  refine ⟨fun hcd => Datum.eq_of_keyContent? hh (hcd ▸ hk), fun heq => ?_⟩
  rw [heq, hk] at hh
  exact (Option.some.inj hh).symm

end Store

/-- The laws hold in every store in which entries are sorted. -/
theorem Store.Ordered.hashLaws {s : Store} (hs : s.Ordered) : s.HashLaws where
  runs := HashOp.runs_realize hs
  untouched := HashOp.runs_untouched
  add {h k v m c} hh hk := by
    obtain ⟨g, t, hrun, hnew, hold, hsum⟩ := hs.add_apart hh hk v
    exact ⟨g, t, hrun, hnew, fun _ => seen_of_untouched hold, fun _ => seen_of_untouched hsum⟩
  literal library n pairs E := by
    refine ⟨fun es t hes => literal_map library n pairs E hes, fun stop t hes => ?_⟩
    show Eval.hashPairs (Eval.expr library n) pairs [] E s = _
    rw [Eval.hashPairs_eq, Eval.bind_of_error hes]
  keys hu hv := ⟨keys_eq_iff hu hv, fun htypes hcd => htypes (congrArg Datum.type ((keys_eq_iff hu hv).1 hcd))⟩
  fails {b arguments stop t} h := (b.call_atomic arguments s).of_error h
  succeeds {b arguments v t} h := (b.call_atomic arguments s).of_ok h
  leaves {b arguments v u t} h hu := ((b.call_atomic arguments s).of_ok h).leaves hu

/-- **Hashes are finite maps, and built-in functions are atomic.** -/
theorem Reachable.hashes_are_maps {s : Store} (h : Reachable s) : s.HashLaws :=
  Store.Ordered.hashLaws fun _ _ hh => h.wellFormed.sorted hh

/-- The store after `var h = {1: 10, true: 20}; var g = h;`. -/
def shared : Store :=
  (Outcome.of (Eval.program (Eval.expr (Library.ofUnits []) 3)
    [.var "h" (.hash [⟨.integer 1, .integer 10⟩, ⟨.boolean true, .integer 20⟩]), .var "g" (.name "h")]
    Session.start.frame) Session.start.store).2

/-- Entries are taken out of `h` and of the hash that `add` made of it: each is gone from one of them, under all its
names. -/
theorem shared_hashes_are_maps :
    let ops : List HashOp := [.add (.ref ⟨3⟩) (.boolean false) .null, .remove (.ref ⟨4⟩) (.boolean true),
      .index (.ref ⟨3⟩) (.boolean true), .remove (.ref ⟨3⟩) (.boolean true), .index (.ref ⟨3⟩) (.boolean true)]
    Reachable shared ∧ shared.get? ⟨0⟩ "h" = some (.ref ⟨3⟩) ∧ shared.get? ⟨0⟩ "g" = some (.ref ⟨3⟩) ∧
      (HashOp.runs ops shared).1 =
        [.value (.ref ⟨4⟩), .value (.ref ⟨4⟩), .value (.ref ⟨2⟩), .value (.ref ⟨3⟩), .value .null] := by
  intro ops
  have hreach : Reachable shared := Reachable.program .start _ _ _
  have hmeaning : ∃ A, shared.heap.runs ops =
      some ([.value (.ref ⟨4⟩), .value (.ref ⟨4⟩), .value (.ref ⟨2⟩), .value (.ref ⟨3⟩), .value .null], A) := ⟨_, rfl⟩
  obtain ⟨A, hA⟩ := hmeaning
  exact ⟨hreach, rfl, rfl, (hreach.hashes_are_maps.runs hA).1⟩

end Pron
