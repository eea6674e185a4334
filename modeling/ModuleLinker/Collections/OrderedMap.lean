/-!
# Maps in order of first insertion

An `OrderedMap` is a finite map that lists its entries in the order in which
their keys were first inserted.  Inserting under a key that is present replaces
the value where it stands; no operation moves an entry.  The view of a map is
the list of its entries, and `find?` reads it by key.
-/

namespace ModuleLinker

/-- A finite map as the list of its entries in the order of first insertion.
That no two entries share a key is part of the value. -/
structure OrderedMap (κ ν : Type) where
  entries : List (κ × ν)
  nodup : (entries.map Prod.fst).Nodup
deriving Repr

namespace OrderedMap

variable {κ ν μ : Type}

/-- Two maps are equal when they list the same entries in the same order. -/
@[ext] theorem ext {m n : OrderedMap κ ν} (h : m.entries = n.entries) : m = n := by
  cases m
  cases n
  simp only at h
  subst h
  rfl

instance [DecidableEq κ] [DecidableEq ν] : DecidableEq (OrderedMap κ ν) := fun m n =>
  decidable_of_iff (m.entries = n.entries) ⟨ext, fun h => by rw [h]⟩

/-- The map without entries. -/
protected def empty : OrderedMap κ ν := ⟨[], List.nodup_nil⟩

instance : EmptyCollection (OrderedMap κ ν) := ⟨OrderedMap.empty⟩

instance : Inhabited (OrderedMap κ ν) := ⟨∅⟩

@[simp] theorem entries_empty : (∅ : OrderedMap κ ν).entries = [] := rfl

/-- The keys in order of first insertion. -/
def keys (m : OrderedMap κ ν) : List κ := m.entries.map Prod.fst

/-- The values, in the order of their keys. -/
def values (m : OrderedMap κ ν) : List ν := m.entries.map Prod.snd

@[simp] theorem keys_empty : (∅ : OrderedMap κ ν).keys = [] := rfl

theorem nodup_keys (m : OrderedMap κ ν) : m.keys.Nodup := m.nodup

/-- Apply a function to every value; keys and order stay. -/
def mapValues (m : OrderedMap κ ν) (f : κ → ν → μ) : OrderedMap κ μ :=
  ⟨m.entries.map fun entry => (entry.1, f entry.1 entry.2), by
    rw [List.map_map]
    exact m.nodup⟩

@[simp] theorem keys_mapValues (m : OrderedMap κ ν) (f : κ → ν → μ) :
    (m.mapValues f).keys = m.keys := by
  simp [keys, mapValues]

variable [DecidableEq κ]

/-- The value that a list of entries holds under a key, from the first entry
with that key. -/
def lookup (key : κ) : List (κ × ν) → Option ν
  | [] => none
  | entry :: rest => if entry.1 = key then some entry.2 else lookup key rest

/-- The value under a key. -/
def find? (m : OrderedMap κ ν) (key : κ) : Option ν := lookup key m.entries

/-- Whether a key is present. -/
def contains (m : OrderedMap κ ν) (key : κ) : Bool := decide (key ∈ m.keys)

@[simp] theorem contains_iff {m : OrderedMap κ ν} {key : κ} :
    m.contains key = true ↔ key ∈ m.keys := by
  simp [contains]

@[simp] theorem find?_empty (key : κ) : (∅ : OrderedMap κ ν).find? key = none := rfl

theorem lookup_eq_none_iff {key : κ} {entries : List (κ × ν)} :
    lookup key entries = none ↔ key ∉ entries.map Prod.fst := by
  induction entries with
  | nil => simp [lookup]
  | cons entry rest ih =>
    by_cases h : entry.1 = key
    · simp [lookup, h]
    · simp only [lookup, if_neg h, ih, List.map_cons, List.mem_cons, not_or]
      exact ⟨fun hr => ⟨fun hk => h hk.symm, hr⟩, fun hr => hr.2⟩

/-- A look-up fails exactly at the keys that are absent. -/
theorem find?_eq_none_iff {m : OrderedMap κ ν} {key : κ} :
    m.find? key = none ↔ key ∉ m.keys :=
  lookup_eq_none_iff

theorem lookup_eq_some_iff {key : κ} {value : ν} {entries : List (κ × ν)}
    (h : (entries.map Prod.fst).Nodup) :
    lookup key entries = some value ↔ (key, value) ∈ entries := by
  induction entries with
  | nil => simp [lookup]
  | cons entry rest ih =>
    obtain ⟨k, v⟩ := entry
    rw [List.map_cons, List.nodup_cons] at h
    by_cases hk : k = key
    · subst hk
      simp only [lookup, if_true, Option.some.injEq, List.mem_cons, Prod.mk.injEq, true_and]
      constructor
      · exact fun hv => Or.inl hv.symm
      · rintro (hv | hr)
        · exact hv.symm
        · exact absurd (List.mem_map_of_mem (f := Prod.fst) hr) h.1
    · simp only [lookup, if_neg hk, ih h.2, List.mem_cons, Prod.mk.injEq]
      exact ⟨Or.inr, fun hr => hr.elim (fun hp => absurd hp.1.symm hk) id⟩

/-- A look-up finds exactly the entries of the map. -/
theorem find?_eq_some_iff {m : OrderedMap κ ν} {key : κ} {value : ν} :
    m.find? key = some value ↔ (key, value) ∈ m.entries :=
  lookup_eq_some_iff m.nodup

/-- A look-up in a list whose values were changed. -/
theorem lookup_map_snd (f : ν → μ) (key : κ) (entries : List (κ × ν)) :
    lookup key (entries.map fun entry => (entry.1, f entry.2)) = (lookup key entries).map f := by
  induction entries with
  | nil => rfl
  | cons entry rest ih =>
    rw [List.map_cons, lookup, lookup]
    split
    · rfl
    · exact ih

/-- Replace the value at the first entry with the key, or append an entry. -/
def put (key : κ) (value : ν) : List (κ × ν) → List (κ × ν)
  | [] => [(key, value)]
  | entry :: rest =>
    if entry.1 = key then (key, value) :: rest else entry :: put key value rest

theorem map_fst_put (key : κ) (value : ν) (entries : List (κ × ν)) :
    (put key value entries).map Prod.fst =
      if key ∈ entries.map Prod.fst then entries.map Prod.fst
      else entries.map Prod.fst ++ [key] := by
  induction entries with
  | nil => simp [put]
  | cons entry rest ih =>
    by_cases h : entry.1 = key
    · simp [put, h]
    · have h' : ¬ key = entry.1 := fun e => h e.symm
      by_cases hr : key ∈ rest.map Prod.fst
      · rw [if_pos hr] at ih
        simp only [put, if_neg h, List.map_cons, ih, if_pos (List.mem_cons_of_mem _ hr)]
      · rw [if_neg hr] at ih
        have hn : key ∉ entry.1 :: rest.map Prod.fst := by
          simp only [List.mem_cons, not_or]
          exact ⟨h', hr⟩
        simp only [put, if_neg h, List.map_cons, ih, if_neg hn, List.cons_append]

theorem nodup_put {key : κ} {value : ν} {entries : List (κ × ν)}
    (h : (entries.map Prod.fst).Nodup) : ((put key value entries).map Prod.fst).Nodup := by
  rw [map_fst_put]
  split
  · exact h
  · rename_i hk
    rw [List.nodup_append]
    refine ⟨h, by simp, ?_⟩
    intro a ha b hb
    rw [List.mem_singleton] at hb
    subst hb
    exact fun hab => hk (hab ▸ ha)

/-- Set the value under a key: in place when the key is present, else at the
end. -/
def insert (m : OrderedMap κ ν) (key : κ) (value : ν) : OrderedMap κ ν :=
  ⟨put key value m.entries, nodup_put m.nodup⟩

theorem keys_insert (m : OrderedMap κ ν) (key : κ) (value : ν) :
    (m.insert key value).keys = if key ∈ m.keys then m.keys else m.keys ++ [key] :=
  map_fst_put key value m.entries

@[simp] theorem mem_keys_insert {m : OrderedMap κ ν} {key other : κ} {value : ν} :
    other ∈ (m.insert key value).keys ↔ other ∈ m.keys ∨ other = key := by
  rw [keys_insert]
  split
  · rename_i h
    exact ⟨Or.inl, fun ho => ho.elim id fun e => e ▸ h⟩
  · simp

theorem lookup_put (key other : κ) (value : ν) (entries : List (κ × ν)) :
    lookup other (put key value entries) =
      if key = other then some value else lookup other entries := by
  induction entries with
  | nil => simp [put, lookup]
  | cons entry rest ih =>
    by_cases h : entry.1 = key
    · by_cases ho : key = other
      · simp [put, lookup, h, ho]
      · simp [put, lookup, h, ho]
    · by_cases ho : entry.1 = other
      · have hk : ¬ key = other := fun e => h (ho.trans e.symm)
        rw [put, if_neg h, lookup, if_pos ho, lookup, if_pos ho, if_neg hk]
      · simp [put, lookup, h, ho, ih]

/-- Inserting sets one key and leaves every other key as it was. -/
theorem find?_insert (m : OrderedMap κ ν) (key other : κ) (value : ν) :
    (m.insert key value).find? other = if key = other then some value else m.find? other :=
  lookup_put key other value m.entries

@[simp] theorem find?_insert_self (m : OrderedMap κ ν) (key : κ) (value : ν) :
    (m.insert key value).find? key = some value := by
  simp [find?_insert]

/-- Under an absent key the new entry comes last. -/
theorem entries_insert_of_notMem {m : OrderedMap κ ν} {key : κ} {value : ν}
    (h : key ∉ m.keys) : (m.insert key value).entries = m.entries ++ [(key, value)] := by
  have aux : ∀ entries : List (κ × ν), key ∉ entries.map Prod.fst →
      put key value entries = entries ++ [(key, value)] := by
    intro entries
    induction entries with
    | nil => intro _; rfl
    | cons entry rest ih =>
      intro hn
      simp only [List.map_cons, List.mem_cons, not_or] at hn
      have he : ¬ entry.1 = key := fun e => hn.1 e.symm
      simp [put, he, ih hn.2]
  exact aux m.entries h

/-- An entry after an insertion is the new one or was there before. -/
theorem mem_entries_insert {m : OrderedMap κ ν} {key : κ} {value : ν} {entry : κ × ν}
    (h : entry ∈ (m.insert key value).entries) : entry = (key, value) ∨ entry ∈ m.entries := by
  obtain ⟨other, found⟩ := entry
  rw [← find?_eq_some_iff, find?_insert] at h
  split at h
  · rename_i hk
    rw [hk, Option.some.inj h]
    exact Or.inl rfl
  · exact Or.inr (find?_eq_some_iff.mp h)

theorem mem_keys_iff_exists_find? {m : OrderedMap κ ν} {key : κ} :
    key ∈ m.keys ↔ ∃ value, m.find? key = some value := by
  rw [← Option.ne_none_iff_exists', ne_eq, find?_eq_none_iff, Classical.not_not]

theorem mem_values_of_find? {m : OrderedMap κ ν} {key : κ} {value : ν}
    (h : m.find? key = some value) : value ∈ m.values :=
  List.mem_map_of_mem (f := Prod.snd) (find?_eq_some_iff.mp h)

theorem exists_find?_of_mem_values {m : OrderedMap κ ν} {value : ν} (h : value ∈ m.values) :
    ∃ key, m.find? key = some value := by
  obtain ⟨⟨key, found⟩, hentry, rfl⟩ := List.mem_map.mp h
  exact ⟨key, find?_eq_some_iff.mpr hentry⟩

/-- Set the value under every key of a list of entries, from its head on. -/
def insertAll (m : OrderedMap κ ν) (entries : List (κ × ν)) : OrderedMap κ ν :=
  entries.foldl (fun map entry => map.insert entry.1 entry.2) m

@[simp] theorem insertAll_nil (m : OrderedMap κ ν) : m.insertAll [] = m := rfl

@[simp] theorem insertAll_cons (m : OrderedMap κ ν) (entry : κ × ν) (rest : List (κ × ν)) :
    m.insertAll (entry :: rest) = (m.insert entry.1 entry.2).insertAll rest := rfl

/-- The map of a list of entries: each key at its first place, with its last
value. -/
def ofList (entries : List (κ × ν)) : OrderedMap κ ν := insertAll ∅ entries

theorem mem_entries_insertAll {m : OrderedMap κ ν} {entries : List (κ × ν)} {entry : κ × ν}
    (h : entry ∈ (m.insertAll entries).entries) : entry ∈ m.entries ∨ entry ∈ entries := by
  induction entries generalizing m with
  | nil => exact Or.inl h
  | cons first rest ih =>
    rcases ih h with hm | hrest
    · rcases mem_entries_insert hm with rfl | hm
      · exact Or.inr List.mem_cons_self
      · exact Or.inl hm
    · exact Or.inr (List.mem_cons_of_mem _ hrest)

/-- The map of a list holds no entry that the list lacks. -/
theorem mem_of_mem_entries_ofList {entries : List (κ × ν)} {entry : κ × ν}
    (h : entry ∈ (ofList entries).entries) : entry ∈ entries :=
  (mem_entries_insertAll h).elim (fun hm => absurd hm List.not_mem_nil) id

theorem entries_insertAll_of_nodup {m : OrderedMap κ ν} {entries : List (κ × ν)}
    (h : (m.keys ++ entries.map Prod.fst).Nodup) :
    (m.insertAll entries).entries = m.entries ++ entries := by
  induction entries generalizing m with
  | nil => simp
  | cons first rest ih =>
    obtain ⟨key, value⟩ := first
    have hkey : key ∉ m.keys := fun hk =>
      (List.nodup_append.mp h).2.2 key hk key List.mem_cons_self rfl
    have hkeys : (m.insert key value).keys = m.keys ++ [key] := by
      rw [keys_insert, if_neg hkey]
    rw [insertAll_cons, ih (by rw [hkeys]; simpa using h), entries_insert_of_notMem hkey]
    simp

/-- A list without repeated keys is the list of entries of its map. -/
theorem entries_ofList_of_nodup {entries : List (κ × ν)} (h : (entries.map Prod.fst).Nodup) :
    (ofList entries).entries = entries :=
  entries_insertAll_of_nodup (m := ∅) (by simpa using h)

/-- Take an entry out; the others keep their order. -/
def erase (m : OrderedMap κ ν) (key : κ) : OrderedMap κ ν :=
  ⟨m.entries.filter fun entry => !decide (entry.1 = key),
    List.Nodup.sublist (List.Sublist.map _ List.filter_sublist) m.nodup⟩

/-- The same entries in the opposite order. -/
def reverse (m : OrderedMap κ ν) : OrderedMap κ ν :=
  ⟨m.entries.reverse, by
    rw [List.map_reverse]
    exact List.pairwise_reverse.mpr (m.nodup.imp fun h => h.symm)⟩

/-- Change the value under a key, which becomes the default value first when
the key is absent. -/
def update [Inhabited ν] (m : OrderedMap κ ν) (key : κ) (f : ν → ν) : OrderedMap κ ν :=
  m.insert key (f ((m.find? key).getD default))

theorem find?_update [Inhabited ν] (m : OrderedMap κ ν) (key other : κ) (f : ν → ν) :
    (m.update key f).find? other =
      if key = other then some (f ((m.find? key).getD default)) else m.find? other :=
  find?_insert m key other _

end OrderedMap

end ModuleLinker
