set_option autoImplicit false

/-!
# Association lists

Finite maps with few keys, kept as lists of pairs in order of first insertion.

## Main definitions

* `ProgramGraph.Assoc` — the maps.
* `ProgramGraph.Assoc.get?`, `ProgramGraph.Assoc.put` — look-up and insertion.

## Main results

* `ProgramGraph.Assoc.get?_put_self`, `ProgramGraph.Assoc.get?_put_of_ne` — what is found after an
  insertion.
* `ProgramGraph.Assoc.get?_putNew` — what is found after an insertion that replaces nothing.
* `ProgramGraph.Assoc.mem_keys_iff` — the keys are those that have a value.
-/

namespace ProgramGraph

/-- A finite map from keys to values. -/
structure Assoc (κ ν : Type) where
  /-- The pairs, in order of first insertion of the key. -/
  entries : List (κ × ν) := []
deriving DecidableEq, Repr

namespace Assoc

variable {κ ν : Type} [DecidableEq κ]

/-- The map without entries. -/
instance : EmptyCollection (Assoc κ ν) := ⟨⟨[]⟩⟩

/-- The map without entries, in case any map will do. -/
instance : Inhabited (Assoc κ ν) := ⟨⟨[]⟩⟩

/-- The value in the first pair with the key. -/
def find (key : κ) : List (κ × ν) → Option ν
  | [] => none
  | (k, v) :: rest => if k = key then some v else find key rest

/-- The pairs with the value at the key replaced, or the new pair at the end. -/
def replace (key : κ) (value : ν) : List (κ × ν) → List (κ × ν)
  | [] => [(key, value)]
  | (k, v) :: rest => if k = key then (k, value) :: rest else (k, v) :: replace key value rest

/-- The value at a key. -/
def get? (m : Assoc κ ν) (key : κ) : Option ν := find key m.entries

/-- Whether a key has a value. -/
def contains (m : Assoc κ ν) (key : κ) : Bool := (m.get? key).isSome

/-- Sets the value at a key. -/
def put (m : Assoc κ ν) (key : κ) (value : ν) : Assoc κ ν := ⟨replace key value m.entries⟩

/-- Sets the value at a key that has none yet. -/
def putNew (m : Assoc κ ν) (key : κ) (value : ν) : Assoc κ ν :=
  if m.contains key then m else m.put key value

/-- The number of keys. -/
def size (m : Assoc κ ν) : Nat := m.entries.length

/-- The keys, in order of first insertion. -/
def keys (m : Assoc κ ν) : List κ := m.entries.map Prod.fst

/-- **Found where put.** -/
theorem get?_put_self (m : Assoc κ ν) (key : κ) (value : ν) :
    (m.put key value).get? key = some value := by
  obtain ⟨entries⟩ := m
  simp only [get?, put]
  induction entries with
  | nil => simp [replace, find]
  | cons p rest ih =>
    obtain ⟨k, v⟩ := p
    by_cases h : k = key <;> simp [replace, find, h, ih]

/-- **Other keys are left alone.** -/
theorem get?_put_of_ne (m : Assoc κ ν) {key other : κ} (value : ν) (h : other ≠ key) :
    (m.put key value).get? other = m.get? other := by
  obtain ⟨entries⟩ := m
  simp only [get?, put]
  induction entries with
  | nil => simp [replace, find, h.symm]
  | cons p rest ih =>
    obtain ⟨k, v⟩ := p
    by_cases hk : k = key
    · subst hk
      simp [replace, find, h.symm]
    · simp only [replace, if_neg hk, find, ih]

/-- What is found after an insertion. -/
theorem get?_put (m : Assoc κ ν) (key other : κ) (value : ν) :
    (m.put key value).get? other = if other = key then some value else m.get? other := by
  by_cases h : other = key
  · rw [if_pos h, h, get?_put_self]
  · rw [if_neg h, get?_put_of_ne m value h]

/-- **The first insertion counts.** -/
theorem get?_putNew (m : Assoc κ ν) (key other : κ) (value : ν) :
    (m.putNew key value).get? other = (m.get? other).or (if other = key then some value else none) := by
  unfold putNew contains
  cases hkey : m.get? key with
  | some old =>
    rw [if_pos (by rfl)]
    by_cases h : other = key
    · rw [h, hkey]
      rfl
    · rw [if_neg h, Option.or_none]
  | none =>
    rw [if_neg (by simp), get?_put]
    by_cases h : other = key
    · rw [if_pos h, if_pos h, h, hkey]
      rfl
    · rw [if_neg h, if_neg h, Option.or_none]

/-- What is found is the value of a pair. -/
theorem mem_of_get? {m : Assoc κ ν} {key : κ} {value : ν} (h : m.get? key = some value) :
    (key, value) ∈ m.entries := by
  obtain ⟨entries⟩ := m
  simp only [get?] at h
  induction entries with
  | nil => simp [find] at h
  | cons p rest ih =>
    obtain ⟨k, v⟩ := p
    rw [find] at h
    split at h
    · next hk =>
      rw [hk, Option.some.inj h]
      exact List.mem_cons_self ..
    · exact List.mem_cons_of_mem _ (ih h)

omit [DecidableEq κ] in
/-- There are as many keys as their number says. -/
theorem length_keys (m : Assoc κ ν) : m.keys.length = m.size :=
  List.length_map _

/-- **The keys** are those that have a value. -/
theorem mem_keys_iff {m : Assoc κ ν} {key : κ} : key ∈ m.keys ↔ ∃ value, m.get? key = some value := by
  obtain ⟨entries⟩ := m
  simp only [get?, keys]
  induction entries with
  | nil => simp [find]
  | cons p rest ih =>
    obtain ⟨k, v⟩ := p
    rw [List.map_cons, List.mem_cons, find]
    by_cases h : k = key
    · simp [h]
    · rw [if_neg h, ← ih]
      exact ⟨fun hmem => hmem.resolve_left fun heq => h heq.symm, Or.inr⟩

/-- A new key comes behind the others. -/
theorem keys_put {m : Assoc κ ν} {key : κ} (value : ν) (h : key ∉ m.keys) :
    (m.put key value).keys = m.keys ++ [key] := by
  obtain ⟨entries⟩ := m
  simp only [put, keys] at h ⊢
  induction entries with
  | nil => rfl
  | cons p rest ih =>
    obtain ⟨k, v⟩ := p
    simp only [List.map_cons, List.mem_cons, not_or] at h
    rw [replace, if_neg fun heq => h.1 heq.symm, List.map_cons, List.map_cons, ih h.2, List.cons_append]

/-- **No key is inserted twice.** -/
theorem nodup_keys_putNew {m : Assoc κ ν} (key : κ) (value : ν) (h : m.keys.Nodup) :
    (m.putNew key value).keys.Nodup := by
  unfold putNew
  split
  · exact h
  · next hnew =>
    have hkey : key ∉ m.keys := by
      rw [mem_keys_iff]
      rintro ⟨old, hold⟩
      exact hnew (by rw [contains, hold]; rfl)
    rw [keys_put value hkey, List.nodup_append]
    refine ⟨h, by simp, ?_⟩
    rintro a ha b hb rfl
    exact hkey (List.mem_singleton.mp hb ▸ ha)

/-- The pairs after an insertion are old, or have the new value. -/
theorem mem_entries_put {m : Assoc κ ν} {key : κ} {value : ν} {p : κ × ν}
    (h : p ∈ (m.put key value).entries) : p ∈ m.entries ∨ p.2 = value := by
  obtain ⟨entries⟩ := m
  simp only [put] at h ⊢
  induction entries with
  | nil =>
    rw [replace, List.mem_singleton] at h
    exact Or.inr (by rw [h])
  | cons q rest ih =>
    obtain ⟨k, v⟩ := q
    rw [replace] at h
    split at h
    · rcases List.mem_cons.mp h with rfl | h
      · exact Or.inr rfl
      · exact Or.inl (List.mem_cons_of_mem _ h)
    · rcases List.mem_cons.mp h with rfl | h
      · exact Or.inl (List.mem_cons_self ..)
      · exact (ih h).imp_left (List.mem_cons_of_mem _)

/-- Values can be changed before or after they are found. -/
theorem find_map {μ : Type} (f : ν → μ) (key : κ) (entries : List (κ × ν)) :
    find key (entries.map fun p => (p.1, f p.2)) = (find key entries).map f := by
  induction entries with
  | nil => rfl
  | cons p rest ih =>
    obtain ⟨k, v⟩ := p
    simp only [List.map_cons, find, ih]
    split <;> rfl

end Assoc

end ProgramGraph
