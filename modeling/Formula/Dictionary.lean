set_option autoImplicit false

/-! # Dictionaries in insertion order

A dictionary is a list of keys with their values, in the order in which the keys were first put in.
Putting a key that is present replaces its value in place.

Main statements: `find?_put`, `find?_erase` and `find?_foldl` (what a look-up gives after a change),
`mem_keys`, `keys_put` and `nodup_keys_put` (which keys there are). -/

namespace Formula

/-- Keys with values, in the order of insertion. -/
structure Dictionary (κ α : Type) where
  entries : List (κ × α)

namespace Dictionary

variable {κ α : Type} [DecidableEq κ]

/-- No entries. -/
def empty : Dictionary κ α := ⟨[]⟩

instance : Inhabited (Dictionary κ α) := ⟨empty⟩

/-- The first value kept under a key in a list of entries. -/
def findIn (key : κ) : List (κ × α) → Option α
  | [] => none
  | (k, a) :: rest => if k = key then some a else findIn key rest

/-- Replaces the value of a key in a list of entries, or adds the key at the end. -/
def putIn (key : κ) (value : α) : List (κ × α) → List (κ × α)
  | [] => [(key, value)]
  | (k, a) :: rest => if k = key then (k, value) :: rest else (k, a) :: putIn key value rest

/-- The value kept under a key. -/
def find? (d : Dictionary κ α) (key : κ) : Option α := findIn key d.entries

/-- Whether a key is present. -/
def contains (d : Dictionary κ α) (key : κ) : Bool := (d.find? key).isSome

/-- Keeps a value under a key: in place if the key is present, at the end otherwise. -/
def put (d : Dictionary κ α) (key : κ) (value : α) : Dictionary κ α :=
  ⟨putIn key value d.entries⟩

/-- Removes a key. -/
def erase (d : Dictionary κ α) (key : κ) : Dictionary κ α :=
  ⟨d.entries.filter fun e => e.1 ≠ key⟩

/-- The keys in order. -/
def keys (d : Dictionary κ α) : List κ := d.entries.map Prod.fst

/-- The values in the order of their keys. -/
def values (d : Dictionary κ α) : List α := d.entries.map Prod.snd

/-- The number of keys. -/
def size (d : Dictionary κ α) : Nat := d.entries.length

@[simp] theorem find?_empty (key : κ) : (empty : Dictionary κ α).find? key = none := rfl

theorem find?_put (d : Dictionary κ α) (key k : κ) (value : α) :
    (d.put key value).find? k = if k = key then some value else d.find? k := by
  obtain ⟨entries⟩ := d
  simp only [put, find?]
  induction entries with
  | nil => simp only [putIn, findIn, eq_comm]
  | cons e rest ih =>
    obtain ⟨a, b⟩ := e
    by_cases ha : a = key
    · subst ha
      by_cases hk : k = a
      · simp [putIn, findIn, hk]
      · simp [putIn, findIn, hk, Ne.symm hk]
    · by_cases hk : a = k
      · subst hk
        simp [putIn, findIn, ha]
      · simp [putIn, findIn, ha, hk, ih]

theorem find?_erase (d : Dictionary κ α) (key k : κ) :
    (d.erase key).find? k = if k = key then none else d.find? k := by
  obtain ⟨entries⟩ := d
  simp only [erase, find?] at *
  induction entries with
  | nil => simp [findIn]
  | cons e rest ih =>
    obtain ⟨a, b⟩ := e
    by_cases ha : a = key
    · subst ha
      by_cases hk : k = a
      · simpa [hk] using ih
      · simpa [findIn, hk, Ne.symm hk] using ih
    · by_cases hk : a = k
      · subst hk
        simp [findIn, ha]
      · simpa [findIn, ha, hk] using ih

theorem mem_keys (d : Dictionary κ α) (key : κ) : key ∈ d.keys ↔ d.contains key = true := by
  obtain ⟨entries⟩ := d
  simp only [keys, contains, find?]
  induction entries with
  | nil => simp [findIn]
  | cons e rest ih =>
    obtain ⟨a, b⟩ := e
    by_cases ha : a = key
    · simp [findIn, ha]
    · simpa [findIn, ha, Ne.symm ha] using ih

/-- Putting keeps the order of the keys; a new key comes last. -/
theorem keys_put (d : Dictionary κ α) (key : κ) (value : α) :
    (d.put key value).keys = if d.contains key then d.keys else d.keys ++ [key] := by
  obtain ⟨entries⟩ := d
  simp only [put, keys, contains, find?]
  induction entries with
  | nil => simp [putIn, findIn]
  | cons e rest ih =>
    obtain ⟨a, b⟩ := e
    by_cases ha : a = key
    · simp [putIn, findIn, ha]
    · by_cases hrest : (findIn key rest).isSome = true
      · simpa [putIn, findIn, ha, hrest] using ih
      · simpa [putIn, findIn, ha, hrest] using ih

theorem nodup_keys_put {d : Dictionary κ α} (h : d.keys.Nodup) (key : κ) (value : α) :
    (d.put key value).keys.Nodup := by
  rw [keys_put]
  split
  · exact h
  next hnew =>
    refine List.nodup_append.2 ⟨h, by simp, ?_⟩
    intro k hk other hother heq
    obtain rfl : other = key := List.mem_singleton.1 hother
    exact hnew ((mem_keys d other).1 (heq ▸ hk))

/-- In a dictionary that keeps each key once, a look-up gives the entry. -/
theorem mem_entries_iff {d : Dictionary κ α} (h : d.keys.Nodup) {key : κ} {value : α} :
    (key, value) ∈ d.entries ↔ d.find? key = some value := by
  obtain ⟨entries⟩ := d
  simp only [keys, find?] at h ⊢
  induction entries with
  | nil => simp [findIn]
  | cons e rest ih =>
    obtain ⟨k, a⟩ := e
    obtain ⟨hk, hrest⟩ := List.nodup_cons.1 h
    by_cases hkey : k = key
    · subst hkey
      have habsent : (k, value) ∉ rest := fun hmem => hk (List.mem_map.2 ⟨_, hmem, rfl⟩)
      simp [findIn, habsent, eq_comm]
    · simp [findIn, hkey, Ne.symm hkey, ih hrest]

/-- What stands under a key after every entry of a dictionary was worked into another one, if an
entry changes what stands under its own key only. -/
theorem find?_foldl {β : Type} (add : Dictionary κ β → κ × α → Dictionary κ β)
    (change : α → Option β → Option β) {key : κ}
    (hadd : ∀ d e, (add d e).find? key =
      if key = e.1 then change e.2 (d.find? key) else d.find? key)
    {updates : Dictionary κ α} (h : updates.keys.Nodup) (d : Dictionary κ β) :
    (updates.entries.foldl add d).find? key =
      match updates.find? key with
      | some a => change a (d.find? key)
      | none => d.find? key := by
  obtain ⟨entries⟩ := updates
  simp only [keys, find?] at h hadd ⊢
  induction entries generalizing d with
  | nil => rfl
  | cons e rest ih =>
    obtain ⟨k, a⟩ := e
    obtain ⟨hk, hrest⟩ := List.nodup_cons.1 h
    rw [List.foldl_cons, ih _ hrest, hadd]
    by_cases hkey : k = key
    · subst hkey
      have habsent : findIn k rest = none := by
        cases hfound : findIn k rest with
        | none => rfl
        | some b => exact absurd ((mem_keys ⟨rest⟩ k).2 (by simp [contains, find?, hfound])) hk
      simp [findIn, habsent]
    · simp [findIn, hkey, Ne.symm hkey]

end Dictionary

end Formula
