import ModuleLinker.Collections.UniqueList

/-!
# Sets with a swappable arrangement

An `ArrangedSet` holds distinct items and enumerates them either in the order
of their insertion or in the order of an active comparator.  The order is
computed by the first read after a change, as a list of positions among the items,
and remembered until the next change, so every read hands back the set it leaves
behind.
-/

namespace ModuleLinker

/-- A way to compare two items; items that compare equal stay in the order of
their insertion. -/
abbrev Comparator (α : Type) : Type := α → α → Ordering

/-- Distinct items with the comparator chosen at construction, the comparator
now in force, and the positions of the items in the order of enumeration if a read
has computed them since the last change.  No comparator means the order of
insertion. -/
structure ArrangedSet (α : Type) where
  items : UniqueList α
  standing : Option (Comparator α)
  active : Option (Comparator α)
  remembered : Option (List Nat)

namespace ArrangedSet

variable {α : Type}

/-- The positions of the items in the order of a comparator: those from the first
item on, sorted by the items at them if there is a comparator.  The sort is stable,
so items that compare equal stay in the order of their insertion. -/
def arrangedPositions (comparator : Option (Comparator α)) (items : List α) : List Nat :=
  let positions := List.finRange items.length
  let arranged :=
    match comparator with
    | none => positions
    | some compare =>
      positions.mergeSort fun first second => (compare (items.get first) (items.get second)).isLE
  arranged.map Fin.val

/-- An empty set with a standing comparator, which is not in force yet. -/
def withStanding (standing : Option (Comparator α)) : ArrangedSet α :=
  ⟨∅, standing, none, none⟩

instance : EmptyCollection (ArrangedSet α) := ⟨withStanding none⟩

instance : Inhabited (ArrangedSet α) := ⟨∅⟩

/-- Forget the order of enumeration. -/
def forget (s : ArrangedSet α) : ArrangedSet α := { s with remembered := none }

/-- The number of items. -/
def size (s : ArrangedSet α) : Nat := s.items.size

/-- Whether the order of enumeration is remembered now. -/
def hasRemembered (s : ArrangedSet α) : Bool := s.remembered.isSome

/-- The positions of the items in the order of enumeration: the remembered ones, or
else those that the active comparator asks for. -/
def positions (s : ArrangedSet α) : List Nat :=
  s.remembered.getD (arrangedPositions s.active s.items.toList)

/-- Enumerate the items, and remember the order.  A position at which there is no
item is passed over. -/
def enumerate (s : ArrangedSet α) : List α × ArrangedSet α :=
  (s.positions.filterMap fun i => s.items.toList[i]?, { s with remembered := some s.positions })

/-- The first item of the enumeration, the order of which is then remembered whole. -/
def first (s : ArrangedSet α) : Option α × ArrangedSet α :=
  (s.enumerate.1.head?, s.enumerate.2)

/-- Take every item out; the comparators stay. -/
def clear (s : ArrangedSet α) : ArrangedSet α := forget { s with items := ∅ }

/-- Enumerate by the standing comparator from now on, or in the order of
insertion when there is none. -/
def useStanding (s : ArrangedSet α) : ArrangedSet α := forget { s with active := s.standing }

/-- Enumerate by another comparator from now on. -/
def useComparator (s : ArrangedSet α) (comparator : Comparator α) : ArrangedSet α :=
  forget { s with active := some comparator }

/-- A copy of a set, which has the remembered order as well. -/
def copy (s : ArrangedSet α) : ArrangedSet α where
  items := s.items
  standing := s.standing
  active := s.active
  remembered := s.remembered

variable [DecidableEq α]

/-- Whether an item is present. -/
def contains (s : ArrangedSet α) (x : α) : Bool := s.items.contains x

/-- Put an item in and say whether it was new; only a new item makes the set
forget its enumeration. -/
def insert (s : ArrangedSet α) (x : α) : Bool × ArrangedSet α :=
  if s.contains x then (false, s) else (true, forget { s with items := s.items.insert x })

/-- Take an item out and say whether it was there; only then does the set
forget its enumeration. -/
def erase (s : ArrangedSet α) (x : α) : Bool × ArrangedSet α :=
  if s.contains x then (true, forget { s with items := s.items.erase x }) else (false, s)

/-- Put in every item of a list, from its head on. -/
def insertAll (s : ArrangedSet α) (xs : List α) : ArrangedSet α :=
  xs.foldl (fun set x => (set.insert x).2) s

/-- The set of the items of a list, without comparators. -/
def ofList (xs : List α) : ArrangedSet α := insertAll ∅ xs

theorem insert_of_contains {s : ArrangedSet α} {x : α} (h : s.contains x = true) :
    s.insert x = (false, s) := by
  simp [insert, h]

theorem erase_of_not_contains {s : ArrangedSet α} {x : α} (h : s.contains x = false) :
    s.erase x = (false, s) := by
  simp [erase, h]

end ArrangedSet

end ModuleLinker
