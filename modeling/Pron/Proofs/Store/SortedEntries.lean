import Pron.Store.Entries

/-!
# Sorted entries

The order of the contents of keys is a strict total order (`HashKey.lt_irrefl`, `HashKey.lt_trans`, `HashKey.lt_or`).
Entering and removing keep entries sorted, and in sorted entries each entry is the one that is found under its content
(`Entries.Sorted.find?_eq`).
-/

namespace Pron

namespace HashKey

theorem lt_irrefl (a : HashKey) : ¬a.lt a := by
  cases a with
  | integer n => simp only [lt, decide_eq_true_eq]; exact Int64.lt_irrefl
  | boolean b => cases b <;> decide
  | text t => simp only [lt, decide_eq_true_eq]; exact String.lt_irrefl t

theorem ne_of_lt {a b : HashKey} (h : a.lt b) : a ≠ b := by
  rintro rfl
  exact lt_irrefl _ h

/-- Keys are ordered: integers, then truth values, then texts. -/
theorem lt_trans {a b c : HashKey} (h₁ : a.lt b) (h₂ : b.lt c) : a.lt c := by
  cases a with
  | integer l =>
    cases b <;> cases c <;> simp only [lt, decide_eq_true_eq, Bool.false_eq_true] at h₁ h₂ ⊢
    exact Int64.lt_trans h₁ h₂
  | boolean l => cases b <;> cases c <;> simp_all [lt]
  | text l =>
    cases b <;> cases c <;> simp only [lt, decide_eq_true_eq, Bool.false_eq_true] at h₁ h₂ ⊢
    exact String.lt_trans h₁ h₂

/-- Different contents are in order one way or the other. -/
theorem lt_or {a b : HashKey} (h : a ≠ b) : a.lt b ∨ b.lt a := by
  cases a with
  | integer m =>
    cases b with
    | integer n =>
      simp only [lt, decide_eq_true_eq, ← Int64.not_le]
      by_cases hmn : n ≤ m
      · exact .inr fun hnm => h (congrArg _ (Int64.le_antisymm hnm hmn))
      · exact .inl hmn
    | boolean _ | text _ => exact .inl rfl
  | boolean c =>
    cases b with
    | integer _ => exact .inr rfl
    | boolean d => cases c <;> cases d <;> simp_all [lt]
    | text _ => exact .inl rfl
  | text s =>
    cases b with
    | integer _ | boolean _ => exact .inr rfl
    | text t =>
      simp only [lt, decide_eq_true_eq, ← String.not_le]
      by_cases hst : t ≤ s
      · exact .inr fun hts => h (congrArg _ (String.le_antisymm hts hst))
      · exact .inl hst

end HashKey

namespace Entries

/-- The contents of the entries increase. -/
def Sorted (entries : List HashEntry) : Prop := entries.Pairwise fun d e => d.content.lt e.content

theorem mem_insert {d e : HashEntry} {entries : List HashEntry} (h : d ∈ insert e entries) : d = e ∨ d ∈ entries := by
  induction entries with
  | nil => exact .inl (by simpa [insert] using h)
  | cons f rest ih =>
    unfold insert at h
    split at h
    · rcases List.mem_cons.1 h with h | h
      · exact .inl h
      · exact .inr (List.mem_cons_of_mem _ h)
    · split at h
      · exact List.mem_cons.1 h
      · rcases List.mem_cons.1 h with rfl | h
        · exact .inr List.mem_cons_self
        · exact (ih h).imp_right (List.mem_cons_of_mem _)

/-- An entry is inserted where its key belongs. -/
theorem Sorted.insert {entries : List HashEntry} (h : Sorted entries) (e : HashEntry) :
    Sorted (Entries.insert e entries) := by
  induction entries with
  | nil => exact List.pairwise_singleton _ _
  | cons f rest ih =>
    obtain ⟨hf, hrest⟩ := List.pairwise_cons.1 h
    unfold Entries.insert
    split
    · rename_i same
      exact List.pairwise_cons.2 ⟨fun d hd => same ▸ hf d hd, hrest⟩
    · rename_i other
      split
      · rename_i before
        refine List.pairwise_cons.2 ⟨fun d hd => ?_, h⟩
        rcases List.mem_cons.1 hd with rfl | hd
        · exact before
        · exact HashKey.lt_trans before (hf d hd)
      · rename_i notBefore
        refine List.pairwise_cons.2 ⟨fun d hd => ?_, ih hrest⟩
        rcases mem_insert hd with rfl | hd
        · exact (HashKey.lt_or other).resolve_left notBefore
        · exact hf d hd

theorem Sorted.erase {entries : List HashEntry} (h : Sorted entries) (content : HashKey) :
    Sorted (Entries.erase content entries) := h.filter _

/-- Whether entries are sorted is a matter of their contents. -/
theorem Sorted.of_contents {ds es : List HashEntry} (h : Sorted es)
    (hc : ds.map HashEntry.content = es.map HashEntry.content) : Sorted ds := by
  have hds : (ds.map HashEntry.content).Pairwise (fun a b => a.lt b) := hc ▸ List.pairwise_map.2 h
  exact List.pairwise_map.1 hds

/-- In sorted entries each entry is found under its content. -/
theorem Sorted.find?_eq {entries : List HashEntry} (h : Sorted entries) {e : HashEntry} (he : e ∈ entries) :
    find? e.content entries = some e := by
  induction entries with
  | nil => cases he
  | cons f rest ih =>
    obtain ⟨hf, hrest⟩ := List.pairwise_cons.1 h
    rcases List.mem_cons.1 he with rfl | he
    · simp [find?]
    · have hne : f.content ≠ e.content := HashKey.ne_of_lt (hf e he)
      simpa [find?, hne] using ih hrest he

end Entries

end Pron
