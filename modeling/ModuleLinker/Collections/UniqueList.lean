/-!
# Lists without repetitions

A `UniqueList` is a set that remembers the order in which its elements first
arrived.  Inserting an element that is present changes nothing; erasing keeps
the order of the rest.  `toList` is the view that every statement below uses.
-/

namespace ModuleLinker

/-- A list without repetitions, in the order in which its elements first
arrived.  Freedom from repetitions is part of the value. -/
structure UniqueList (α : Type) where
  toList : List α
  nodup : toList.Nodup
deriving Repr

namespace UniqueList

variable {α : Type}

/-- Two unique lists are equal when they list the same elements in the same
order. -/
@[ext] theorem ext {s t : UniqueList α} (h : s.toList = t.toList) : s = t := by
  cases s
  cases t
  simp only at h
  subst h
  rfl

instance [DecidableEq α] : DecidableEq (UniqueList α) := fun s t =>
  decidable_of_iff (s.toList = t.toList) ⟨ext, fun h => by rw [h]⟩

/-- The unique list that holds nothing. -/
protected def empty : UniqueList α := ⟨[], List.nodup_nil⟩

instance : EmptyCollection (UniqueList α) := ⟨UniqueList.empty⟩

instance : Inhabited (UniqueList α) := ⟨∅⟩

instance : Membership α (UniqueList α) := ⟨fun s x => x ∈ s.toList⟩

@[simp] theorem toList_empty : (∅ : UniqueList α).toList = [] := rfl

@[simp] theorem mem_toList {s : UniqueList α} {x : α} : x ∈ s.toList ↔ x ∈ s := Iff.rfl

@[simp] theorem notMem_empty (x : α) : x ∉ (∅ : UniqueList α) := List.not_mem_nil

instance [DecidableEq α] (x : α) (s : UniqueList α) : Decidable (x ∈ s) :=
  inferInstanceAs (Decidable (x ∈ s.toList))

/-- The number of elements. -/
def size (s : UniqueList α) : Nat := s.toList.length

/-- Appending a new element to a list without repetitions keeps it one. -/
theorem nodup_append_singleton {xs : List α} {x : α} (h : xs.Nodup) (hx : x ∉ xs) :
    (xs ++ [x]).Nodup := by
  rw [List.nodup_append]
  refine ⟨h, by simp, ?_⟩
  intro a ha b hb
  rw [List.mem_singleton] at hb
  subst hb
  exact fun hab => hx (hab ▸ ha)

variable [DecidableEq α]

/-- Whether an element is present. -/
def contains (s : UniqueList α) (x : α) : Bool := decide (x ∈ s)

@[simp] theorem contains_iff {s : UniqueList α} {x : α} : s.contains x = true ↔ x ∈ s := by
  simp [contains]

/-- Put an element at the end, unless it is present already. -/
def insert (s : UniqueList α) (x : α) : UniqueList α :=
  if h : x ∈ s.toList then s else ⟨s.toList ++ [x], nodup_append_singleton s.nodup h⟩

theorem insert_of_mem {s : UniqueList α} {x : α} (h : x ∈ s) : s.insert x = s :=
  dif_pos h

theorem toList_insert_of_notMem {s : UniqueList α} {x : α} (h : x ∉ s) :
    (s.insert x).toList = s.toList ++ [x] := by
  simp [insert, show x ∉ s.toList from h]

theorem toList_insert (s : UniqueList α) (x : α) :
    (s.insert x).toList = if x ∈ s then s.toList else s.toList ++ [x] := by
  by_cases h : x ∈ s
  · rw [insert_of_mem h, if_pos h]
  · rw [toList_insert_of_notMem h, if_neg h]

@[simp] theorem mem_insert {s : UniqueList α} {x y : α} : y ∈ s.insert x ↔ y ∈ s ∨ y = x := by
  by_cases h : x ∈ s
  · rw [insert_of_mem h]
    exact ⟨Or.inl, fun hy => hy.elim id fun hyx => hyx ▸ h⟩
  · rw [← mem_toList, toList_insert_of_notMem h, List.mem_append, List.mem_singleton, mem_toList]

/-- Take an element out; the others keep their order. -/
def erase (s : UniqueList α) (x : α) : UniqueList α :=
  ⟨s.toList.erase x, s.nodup.erase x⟩

@[simp] theorem toList_erase (s : UniqueList α) (x : α) :
    (s.erase x).toList = s.toList.erase x := rfl

/-- Insert every element of a list, from its head on. -/
def insertAll (s : UniqueList α) (xs : List α) : UniqueList α := xs.foldl insert s

@[simp] theorem insertAll_nil (s : UniqueList α) : s.insertAll [] = s := rfl

@[simp] theorem insertAll_cons (s : UniqueList α) (x : α) (xs : List α) :
    s.insertAll (x :: xs) = (s.insert x).insertAll xs := rfl

@[simp] theorem mem_insertAll {s : UniqueList α} {xs : List α} {y : α} :
    y ∈ s.insertAll xs ↔ y ∈ s ∨ y ∈ xs := by
  induction xs generalizing s with
  | nil => simp
  | cons x xs ih => simp [ih, or_assoc]

theorem insertAll_append (s : UniqueList α) (xs ys : List α) :
    s.insertAll (xs ++ ys) = (s.insertAll xs).insertAll ys := List.foldl_append

/-- What is inserted comes after what was present. -/
theorem exists_toList_insertAll (s : UniqueList α) (xs : List α) :
    ∃ fresh, (s.insertAll xs).toList = s.toList ++ fresh := by
  induction xs generalizing s with
  | nil => exact ⟨[], (List.append_nil _).symm⟩
  | cons x xs ih =>
    obtain ⟨fresh, hfresh⟩ := ih (s.insert x)
    rw [insertAll_cons, hfresh, toList_insert]
    split
    · exact ⟨fresh, rfl⟩
    · exact ⟨x :: fresh, List.append_assoc _ _ _⟩

/-- The elements of a list, each at its first place. -/
def ofList (xs : List α) : UniqueList α := insertAll ∅ xs

@[simp] theorem mem_ofList {xs : List α} {y : α} : y ∈ ofList xs ↔ y ∈ xs := by
  simp [ofList]

/-- The elements of a list keep their places when more elements follow. -/
theorem exists_toList_ofList_append (xs ys : List α) :
    ∃ fresh, (ofList (xs ++ ys)).toList = (ofList xs).toList ++ fresh := by
  rw [ofList, insertAll_append]
  exact exists_toList_insertAll (ofList xs) ys

/-- An element does not count where it is listed again. -/
theorem ofList_append_cons_of_mem {before : List α} {x : α} (h : x ∈ before) (after : List α) :
    ofList (before ++ x :: after) = ofList (before ++ after) := by
  have hmem : x ∈ insertAll ∅ before := mem_ofList.mpr h
  rw [ofList, ofList, insertAll_append, insertAll_append, insertAll_cons, insert_of_mem hmem]

end UniqueList

end ModuleLinker
