import Mathlib.Data.List.Nodup
import ModuleLinker.Proofs.Text.Identifier

/-!
# Growing scopes

A scope only ever grows: each request takes one more name, which was free and is
an identifier.  `Grows` says which names one scope has beyond another, in the
order in which they were taken, and that requests took them, so what a sequence
of requests took is the sequence of what each of them took.
-/

namespace ModuleLinker

namespace Scope

theorem mem_names_reserveAll {s : Scope} {names : List String} {name : String} :
    name ∈ (s.reserveAll names).names ↔ name ∈ s.names ∨ name ∈ names := by
  induction names generalizing s with
  | nil => exact (or_iff_left List.not_mem_nil).symm
  | cons first rest ih =>
    rw [reserveAll, List.foldl_cons, ← reserveAll, ih, mem_names_reserve, List.mem_cons, or_assoc]

theorem isTaken_eq_false_iff {s : Scope} {name : String} :
    s.isTaken name = false ↔ name ∉ s.names := by
  rw [← Bool.not_eq_true, isTaken_iff]

theorem freshName_of_notMem {s : Scope} {base : String} (h : base ∉ s.names) :
    s.freshName base = base :=
  freshName_of_not_isTaken (isTaken_eq_false_iff.mpr h)

/-- An identifier that is free is what a request for it yields. -/
theorem allocate_of_notMem {s : Scope} {name : String}
    (hname : Identifier.isIdentifier name = true) (hfree : name ∉ s.names) :
    s.allocate name = (name, s.reserve name) := by
  rw [allocate, Identifier.bindingBase_of_isIdentifier hname, freshName_of_notMem hfree]

/-- Of one candidate more than there are taken names, one is free. -/
theorem exists_candidate_notMem (s : Scope) (base : String) :
    ∃ i ∈ List.range (s.names.size + 1), candidate base i ∉ s.names := by
  by_contra hnone
  have hall : ∀ i ∈ List.range (s.names.size + 1), candidate base i ∈ s.names := by
    intro i hi
    by_contra hfree
    exact hnone ⟨i, hi, hfree⟩
  have hnodup : ((List.range (s.names.size + 1)).map (candidate base)).Nodup :=
    List.nodup_range.map fun _ _ heq => candidate_injective base heq
  have hsubset : (List.range (s.names.size + 1)).map (candidate base) ⊆ s.names.toList := by
    intro name hname
    obtain ⟨i, hi, rfl⟩ := List.mem_map.mp hname
    exact hall i hi
  have hlength := hnodup.length_le_of_subset hsubset
  rw [List.length_map, List.length_range] at hlength
  exact absurd hlength (Nat.not_succ_le_self _)

/-- The fresh name for a base is its first candidate that is not taken. -/
theorem exists_freshName_eq_candidate (s : Scope) (base : String) :
    ∃ i, s.freshName base = candidate base i ∧ candidate base i ∉ s.names ∧
      ∀ j < i, candidate base j ∈ s.names := by
  rw [freshName]
  split
  · rename_i i hfound
    obtain ⟨hfree, -, hbefore⟩ := List.find?_range_eq_some.mp hfound
    rw [Bool.not_eq_true', isTaken_eq_false_iff] at hfree
    refine ⟨i, rfl, hfree, fun j hj => ?_⟩
    have htaken := hbefore j hj
    rw [Bool.not_not, isTaken_iff] at htaken
    exact htaken
  · rename_i hnone
    obtain ⟨i, hi, hfree⟩ := s.exists_candidate_notMem base
    have htaken := List.find?_eq_none.mp hnone i hi
    rw [Bool.not_eq_true', isTaken_eq_false_iff] at htaken
    exact absurd hfree htaken

/-- In a larger scope the fresh name stays the same as long as it is free there. -/
theorem freshName_eq_of_subset {s t : Scope} {base : String}
    (hsubset : ∀ name ∈ s.names, name ∈ t.names) (hfree : s.freshName base ∉ t.names) :
    t.freshName base = s.freshName base := by
  obtain ⟨i, hs, -, hbefore⟩ := s.exists_freshName_eq_candidate base
  obtain ⟨j, ht, hnew, hearlier⟩ := t.exists_freshName_eq_candidate base
  have hle : ¬ i < j := fun hlt => hfree (hs ▸ hearlier i hlt)
  have hge : ¬ j < i := fun hlt => hnew (hsubset _ (hbefore j hlt))
  have heq : j = i := Nat.le_antisymm (Nat.not_lt.mp hle) (Nat.not_lt.mp hge)
  rw [ht, hs, heq]

theorem allocate_notMem (s : Scope) (preferred : String) :
    (s.allocate preferred).1 ∉ s.names := by
  obtain ⟨i, hname, hfree, -⟩ :=
    s.exists_freshName_eq_candidate (Identifier.bindingBase preferred)
  exact fun hmem => hfree (hname ▸ hmem)

theorem isIdentifier_allocate (s : Scope) (preferred : String) :
    Identifier.isIdentifier (s.allocate preferred).1 = true := by
  obtain ⟨i, hname, -⟩ := s.exists_freshName_eq_candidate (Identifier.bindingBase preferred)
  rw [allocate, hname]
  exact isIdentifier_candidate (Identifier.isIdentifier_bindingBase preferred) i

/-! ## Sequences of requests -/

/-- What can be asked of a scope. -/
inductive Request
  | reserve (name : String)
  | allocate (preferred : String)
deriving DecidableEq, Repr

/-- The scope after one request. -/
def perform (s : Scope) : Request → Scope
  | .reserve name => s.reserve name
  | .allocate preferred => (s.allocate preferred).2

/-- The scope after a list of requests, from its head on. -/
def performAll (s : Scope) (requests : List Request) : Scope := requests.foldl perform s

/-- The names that the allocations in a list of requests yield, in order. -/
def allocatedNames : Scope → List Request → List String
  | _, [] => []
  | s, .reserve name :: rest => allocatedNames (s.reserve name) rest
  | s, .allocate preferred :: rest =>
    (s.allocate preferred).1 :: allocatedNames (s.allocate preferred).2 rest

/-- The names that the reservations in a list of requests take, in order.  To reserve a name
that is taken takes nothing. -/
def reservedNames : Scope → List Request → List String
  | _, [] => []
  | s, .reserve name :: rest =>
    if s.isTaken name then reservedNames (s.reserve name) rest
    else name :: reservedNames (s.reserve name) rest
  | s, .allocate preferred :: rest => reservedNames (s.allocate preferred).2 rest

theorem performAll_cons (s : Scope) (request : Request) (rest : List Request) :
    s.performAll (request :: rest) = (s.perform request).performAll rest := rfl

theorem performAll_append (s : Scope) (earlier later : List Request) :
    s.performAll (earlier ++ later) = (s.performAll earlier).performAll later :=
  List.foldl_append

theorem allocatedNames_append (s : Scope) (earlier later : List Request) :
    s.allocatedNames (earlier ++ later) =
      s.allocatedNames earlier ++ (s.performAll earlier).allocatedNames later := by
  induction earlier generalizing s with
  | nil => rfl
  | cons request rest ih =>
    cases request with
    | reserve name => exact ih (s.reserve name)
    | allocate preferred => exact congrArg _ (ih (s.allocate preferred).2)

theorem reservedNames_append (s : Scope) (earlier later : List Request) :
    s.reservedNames (earlier ++ later) =
      s.reservedNames earlier ++ (s.performAll earlier).reservedNames later := by
  induction earlier generalizing s with
  | nil => rfl
  | cons request rest ih =>
    cases request with
    | reserve name =>
      rw [List.cons_append, reservedNames, reservedNames, performAll_cons, perform, ih]
      split
      · rfl
      · rfl
    | allocate preferred => exact ih (s.allocate preferred).2

/-! ## Growth -/

/-- One scope has the names of another and then those of a list, all of which are
identifiers and were handed out one after the other. -/
structure Grows (s : Scope) (names : List String) (t : Scope) : Prop where
  toList_eq : t.names.toList = s.names.toList ++ names
  isIdentifier : ∀ name ∈ names, Identifier.isIdentifier name = true
  requested : ∃ requests, s.allocatedNames requests = names ∧ s.performAll requests = t

namespace Grows

variable {s t u : Scope} {names others : List String}

theorem refl (s : Scope) : s.Grows [] s where
  toList_eq := (List.append_nil _).symm
  isIdentifier _ h := absurd h List.not_mem_nil
  requested := ⟨[], rfl, rfl⟩

theorem trans (hst : s.Grows names t) (htu : t.Grows others u) : s.Grows (names ++ others) u where
  toList_eq := by rw [htu.toList_eq, hst.toList_eq, List.append_assoc]
  isIdentifier name h := (List.mem_append.mp h).elim (hst.isIdentifier name)
    (htu.isIdentifier name)
  requested := by
    obtain ⟨earlier, hnames, hscope⟩ := hst.requested
    obtain ⟨later, hothers, hlast⟩ := htu.requested
    refine ⟨earlier ++ later, ?_, ?_⟩
    · rw [allocatedNames_append, hscope, hnames, hothers]
    · rw [performAll_append, hscope, hlast]

/-- Every request takes exactly one name. -/
theorem allocate (s : Scope) (preferred : String) :
    s.Grows [(s.allocate preferred).1] (s.allocate preferred).2 where
  toList_eq := UniqueList.toList_insert_of_notMem (s.allocate_notMem preferred)
  isIdentifier name h := by
    rw [List.mem_singleton.mp h]
    exact s.isIdentifier_allocate preferred
  requested := ⟨[.allocate preferred], rfl, rfl⟩

theorem mem_iff (h : s.Grows names t) {name : String} :
    name ∈ t.names ↔ name ∈ s.names ∨ name ∈ names := by
  rw [← UniqueList.mem_toList, h.toList_eq, List.mem_append, UniqueList.mem_toList]

/-- The names that were taken are distinct. -/
theorem nodup (h : s.Grows names t) : names.Nodup :=
  (List.nodup_append.mp (h.toList_eq ▸ t.names.nodup)).2.1

end Grows

end Scope

end ModuleLinker
