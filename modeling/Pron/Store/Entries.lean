import Pron.Store

/-!
# The entries of a hash

The entries are kept in the order of their contents: integers by number, then `false` and `true`, then texts by code
points. No content occurs twice.
-/

namespace Pron

namespace HashKey

/-- The order of the contents of keys. -/
def lt : HashKey → HashKey → Bool
  | integer m, integer n => decide (m < n)
  | integer _, _ => true
  | boolean _, integer _ => false
  | boolean a, boolean b => !a && b
  | boolean _, text _ => true
  | text s, text t => decide (s < t)
  | text _, _ => false

end HashKey

namespace Entries

/-- The entry with a content. -/
def find? (content : HashKey) (entries : List HashEntry) : Option HashEntry :=
  entries.find? (·.content = content)

/-- Enters an entry in its place, instead of the one with the same content. -/
def insert (entry : HashEntry) : List HashEntry → List HashEntry
  | [] => [entry]
  | e :: rest =>
    if entry.content = e.content then entry :: rest
    else if entry.content.lt e.content then entry :: e :: rest
    else e :: insert entry rest

/-- Leaves out the entry with a content. -/
def erase (content : HashKey) (entries : List HashEntry) : List HashEntry :=
  entries.filter (·.content ≠ content)

/-- The entry that is inserted is found under its key, also where there was another one. -/
@[simp]
theorem find?_insert_self (entry : HashEntry) (entries : List HashEntry) :
    find? entry.content (insert entry entries) = some entry := by
  induction entries with
  | nil => simp [find?, insert]
  | cons e rest ih =>
    by_cases same : entry.content = e.content
    · simp [find?, insert, same]
    · by_cases before : entry.content.lt e.content
      · simp [find?, insert, same, before]
      · simpa [find?, insert, same, before, Ne.symm same] using ih

theorem find?_insert_of_ne {entry : HashEntry} {content : HashKey} (h : content ≠ entry.content)
    (entries : List HashEntry) : find? content (insert entry entries) = find? content entries := by
  induction entries with
  | nil => simp [find?, insert, h.symm]
  | cons e rest ih =>
    by_cases same : entry.content = e.content
    · simp [find?, insert, same, same ▸ h.symm]
    · by_cases before : entry.content.lt e.content
      · simp [find?, insert, same, before, h.symm]
      · by_cases found : e.content = content
        · subst found
          simp [find?, insert, same, before]
        · simpa [find?, insert, same, before, found] using ih

/-- No entry of the key is left. -/
@[simp]
theorem find?_erase_self (content : HashKey) (entries : List HashEntry) :
    find? content (erase content entries) = none := by
  simp [find?, erase]

theorem find?_erase_of_ne {content other : HashKey} (h : other ≠ content) (entries : List HashEntry) :
    find? other (erase content entries) = find? other entries := by
  induction entries with
  | nil => rfl
  | cons e rest ih =>
    by_cases found : e.content = other
    · simp [find?, erase, found, h]
    · by_cases erased : e.content = content
      · simpa [find?, erase, found, erased, h.symm] using ih
      · simpa [find?, erase, found, erased] using ih

end Entries

end Pron
