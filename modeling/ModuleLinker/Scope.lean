import ModuleLinker.Collections.UniqueList
import ModuleLinker.Text.Identifier

/-!
# Scopes

A scope is the list of the names taken in it, in the order in which they were
taken.  A new binding asks for a name close to a preferred one; it gets the
cleaned preferred name when that is free, and else the first free one among the
same name followed by `_1`, `_2` and so on.

Such a request can fail in two ways: the counter behind the name can run out, and
the name that was found can turn out to be taken.  `request` has both of them.
Merging and planning take names with `allocate`, which has neither and hands out
the name that a request finds.
-/

namespace ModuleLinker

/-- The names that are taken in one lexical scope, in the order in which they
were taken. -/
structure Scope where
  names : UniqueList String
deriving DecidableEq, Repr

namespace Scope

instance : EmptyCollection Scope := ⟨⟨∅⟩⟩

instance : Inhabited Scope := ⟨∅⟩

@[ext] theorem ext {s t : Scope} (h : s.names = t.names) : s = t := by
  cases s
  cases t
  simp only at h
  subst h
  rfl

/-- Whether a name is taken. -/
def isTaken (s : Scope) (name : String) : Bool := s.names.contains name

@[simp] theorem isTaken_iff {s : Scope} {name : String} :
    s.isTaken name = true ↔ name ∈ s.names := by
  simp [isTaken]

/-- Take a name as it is; nothing changes when it was taken already. -/
def reserve (s : Scope) (name : String) : Scope := ⟨s.names.insert name⟩

@[simp] theorem mem_names_reserve {s : Scope} {name other : String} :
    other ∈ (s.reserve name).names ↔ other ∈ s.names ∨ other = name :=
  UniqueList.mem_insert

/-- Take every name of a list as it is. -/
def reserveAll (s : Scope) (names : List String) : Scope := names.foldl reserve s

/-- The scope in which exactly the names of a list are taken. -/
def ofNames (names : List String) : Scope := ⟨UniqueList.ofList names⟩

/-- The names to try for a binding, in order of preference: the base itself and
then the base with a number. -/
def candidate (base : String) (i : Nat) : String :=
  if i = 0 then base else base ++ "_" ++ toString i

@[simp] theorem candidate_zero (base : String) : candidate base 0 = base := rfl

/-- The first free candidate for a base.  One candidate more than there are
taken names is enough to find it, since the candidates are distinct; were none
of them free, the answer would be the base. -/
def freshName (s : Scope) (base : String) : String :=
  match (List.range (s.names.size + 1)).find? fun i => !s.isTaken (candidate base i) with
  | some i => candidate base i
  | none => base

/-- Take a free name as close as possible to the preferred one. -/
def allocate (s : Scope) (preferred : String) : String × Scope :=
  let name := s.freshName (Identifier.bindingBase preferred)
  (name, s.reserve name)

theorem allocate_snd (s : Scope) (preferred : String) :
    (s.allocate preferred).2 = s.reserve (s.allocate preferred).1 := rfl

/-- A base that is free is the fresh name itself. -/
theorem freshName_of_not_isTaken {s : Scope} {base : String} (h : s.isTaken base = false) :
    s.freshName base = base := by
  simp [freshName, List.range_succ_eq_map, h]

/-! ## Requests that can fail -/

/-- A base with a number behind it. -/
def numbered (base : String) (i : Nat) : String := base ++ "_" ++ toString i

/-- Count from `i` on up to the first number that makes a free name of the base.  The counter
has 32 bits, so a number can be tried only as long as its successor fits. -/
def countFrom (s : Scope) (base : String) (i : Nat) : Option Nat :=
  if i + 1 < UInt32.size then
    if s.isTaken (numbered base i) then countFrom s base (i + 1) else some i
  else none
termination_by UInt32.size - i

/-- The number of the first candidate that is free: none is tried before the base itself, and
then the count goes from 1 on. -/
def search (s : Scope) (base : String) : Option Nat :=
  if s.isTaken base then s.countFrom base 1 else some 0

/-- What could go wrong with a request. -/
inductive RequestFailure
  | counterExhausted (base : String)
  | nameTaken (name : String)
deriving DecidableEq, Repr

/-- A request with everything that could go wrong: the counter runs out, or the name that was
found turns out to be taken when it is entered. -/
def request (s : Scope) (preferred : String) : Except RequestFailure (String × Scope) :=
  match s.search (Identifier.bindingBase preferred) with
  | none => .error (.counterExhausted (Identifier.bindingBase preferred))
  | some i =>
    let name := candidate (Identifier.bindingBase preferred) i
    if s.isTaken name then .error (.nameTaken name) else .ok (name, s.reserve name)

end Scope

end ModuleLinker
