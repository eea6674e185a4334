import ModuleLinker.Proofs.Scope

/-!
# Requests for names

A request counts through the numbered forms of its base until one of them is free.  Only so
many names are taken, so the count ends, and with fewer than `UInt32.size - 1` of them it ends
before a counter of 32 bits does.  What it ends at is new and an identifier: a request cannot
fail, and what it yields is the closest free name.  Over a sequence of requests every name
has one taker, since whatever was taken stays taken.  So whoever takes names without looking
at failures, as naming and planning do, takes those that requests yield, as long as the names
of the last scope can be counted.
-/

namespace ModuleLinker

namespace Scope

open Identifier (isIdentifier bindingBase)

variable {s : Scope} {base preferred : String}

theorem candidate_of_pos {i : Nat} (h : 1 ≤ i) : candidate base i = numbered base i :=
  if_neg (Nat.one_le_iff_ne_zero.mp h)

/-- The name closest to a base: the base itself if it is free, and else the one with the least
number that is. -/
structure IsClosest (s : Scope) (base name : String) : Prop where
  of_free : base ∉ s.names → name = base
  of_taken : base ∈ s.names → ∃ i, 1 ≤ i ∧ name = numbered base i ∧ numbered base i ∉ s.names ∧
    ∀ j, 1 ≤ j → j < i → numbered base j ∈ s.names

/-! ## A single request -/

/-- The number of the fresh name is not larger than the number of taken names. -/
theorem exists_freshName_eq_candidate_le (s : Scope) (base : String) :
    ∃ i ≤ s.names.size, s.freshName base = candidate base i ∧ candidate base i ∉ s.names ∧
      ∀ j < i, candidate base j ∈ s.names := by
  obtain ⟨i, hname, hfree, hbefore⟩ := s.exists_freshName_eq_candidate base
  obtain ⟨k, hk, hnew⟩ := s.exists_candidate_notMem base
  have hle : i ≤ k := Nat.not_lt.mp fun hlt => hnew (hbefore k hlt)
  exact ⟨i, Nat.le_trans hle (Nat.lt_succ_iff.mp (List.mem_range.mp hk)), hname, hfree, hbefore⟩

theorem countFrom_eq_some {i k : Nat} (hle : i ≤ k) (hfits : k + 1 < UInt32.size)
    (hfree : numbered base k ∉ s.names)
    (htaken : ∀ j, i ≤ j → j < k → numbered base j ∈ s.names) :
    s.countFrom base i = some k := by
  obtain ⟨distance, rfl⟩ := Nat.exists_eq_add_of_le hle
  induction distance generalizing i with
  | zero =>
    rw [Nat.add_zero] at hfits hfree ⊢
    rw [countFrom, if_pos hfits, if_neg (mt isTaken_iff.mp hfree)]
  | succ distance ih =>
    have hhere : numbered base i ∈ s.names := htaken i (Nat.le_refl i) (by omega)
    have hnext : i + (distance + 1) = i + 1 + distance := by omega
    rw [countFrom, if_pos (by omega), if_pos (isTaken_iff.mpr hhere), hnext]
    rw [hnext] at hfits hfree htaken
    exact ih (by omega) hfits hfree fun j hj => htaken j (by omega)

/-- The search finds the number of the fresh name, if that leaves room in the counter. -/
theorem search_eq_some {i : Nat} (hfits : i + 1 < UInt32.size) (hfree : candidate base i ∉ s.names)
    (htaken : ∀ j < i, candidate base j ∈ s.names) : s.search base = some i := by
  rw [search]
  cases i with
  | zero =>
    rw [candidate_zero] at hfree
    rw [if_neg (mt isTaken_iff.mp hfree)]
  | succ i =>
    have hbase : s.isTaken base = true := isTaken_iff.mpr (htaken 0 (Nat.succ_pos i))
    rw [if_pos hbase]
    rw [candidate_of_pos (Nat.succ_pos i)] at hfree
    exact countFrom_eq_some (Nat.succ_pos i) hfits hfree fun j hj hlt =>
      candidate_of_pos hj ▸ htaken j hlt

theorem request_eq_ok {i : Nat} (hsearch : s.search (bindingBase preferred) = some i)
    (hname : (s.allocate preferred).1 = candidate (bindingBase preferred) i) :
    s.request preferred = .ok (s.allocate preferred) := by
  have hfree : s.isTaken (s.allocate preferred).1 = false :=
    isTaken_eq_false_iff.mpr (s.allocate_notMem preferred)
  rw [request, hsearch]
  dsimp only
  rw [← hname, hfree]
  rfl

/-- With room in the counter the search ends at the number of the name that is handed out. -/
theorem exists_search_eq_some (s : Scope) (preferred : String)
    (hroom : s.names.size < UInt32.size - 1) :
    ∃ i, s.search (bindingBase preferred) = some i ∧ i + 1 ≤ s.names.size + 1 ∧
      (s.allocate preferred).1 = candidate (bindingBase preferred) i := by
  obtain ⟨i, hle, hname, hfree, htaken⟩ :=
    s.exists_freshName_eq_candidate_le (bindingBase preferred)
  exact ⟨i, search_eq_some (by omega) hfree htaken, Nat.succ_le_succ hle, hname⟩

theorem isClosest_allocate (s : Scope) (preferred : String) :
    IsClosest s (bindingBase preferred) (s.allocate preferred).1 := by
  obtain ⟨i, hname, hfree, htaken⟩ := s.exists_freshName_eq_candidate (bindingBase preferred)
  constructor
  · exact freshName_of_notMem
  · intro hbase
    have hpos : 1 ≤ i := Nat.one_le_iff_ne_zero.mpr fun hzero => hfree (hzero ▸ hbase)
    rw [candidate_of_pos hpos] at hname hfree
    exact ⟨i, hpos, hname, hfree, fun j hj hlt => candidate_of_pos hj ▸ htaken j hlt⟩

/-- A request yields what it prefers exactly when that is an identifier that is free. -/
theorem allocate_fst_eq_iff (s : Scope) (preferred : String) :
    (s.allocate preferred).1 = preferred ↔
      isIdentifier preferred = true ∧ preferred ∉ s.names := by
  constructor
  · intro hsame
    have hidentifier := s.isIdentifier_allocate preferred
    have hfree := s.allocate_notMem preferred
    rw [hsame] at hidentifier hfree
    exact ⟨hidentifier, hfree⟩
  · rintro ⟨hidentifier, hfree⟩
    rw [allocate_of_notMem hidentifier hfree]

/-! ## Sequences of requests -/

/-- No request gives a name back. -/
theorem mem_names_perform {name : String} (h : name ∈ s.names) (request : Request) :
    name ∈ (s.perform request).names := by
  cases request with
  | reserve other => exact mem_names_reserve.mpr (Or.inl h)
  | allocate preferred => exact mem_names_reserve.mpr (Or.inl h)

theorem mem_names_performAll {name : String} (h : name ∈ s.names) (requests : List Request) :
    name ∈ (s.performAll requests).names := by
  induction requests generalizing s with
  | nil => exact h
  | cons request rest ih => exact ih (mem_names_perform h request)

/-- A name is taken once it was reserved, whether or not it was free before. -/
theorem mem_names_of_reserve_mem {name : String} {requests : List Request}
    (h : .reserve name ∈ requests) : name ∈ (s.performAll requests).names := by
  obtain ⟨earlier, later, rfl⟩ := List.append_of_mem h
  rw [performAll_append, performAll_cons]
  exact mem_names_performAll (mem_names_reserve.mpr (Or.inr rfl)) later

/-- After a list of requests those names are taken that were taken before, those that
reservations took and those that allocations yielded; none of them is listed twice. -/
theorem names_performAll_perm (s : Scope) (requests : List Request) :
    (s.performAll requests).names.toList.Perm
      (s.names.toList ++ (s.reservedNames requests ++ s.allocatedNames requests)) := by
  induction requests generalizing s with
  | nil =>
    rw [reservedNames, allocatedNames, List.append_nil, List.append_nil]
    exact List.Perm.refl _
  | cons request rest ih =>
    refine (ih (s.perform request)).trans ?_
    cases request with
    | reserve name =>
      rw [perform, reservedNames, allocatedNames]
      split
      · rename_i htaken
        rw [reserve, UniqueList.insert_of_mem (isTaken_iff.mp htaken)]
      · rename_i hfree
        rw [isTaken_iff] at hfree
        have hnames : (s.reserve name).names.toList = s.names.toList ++ [name] :=
          UniqueList.toList_insert_of_notMem hfree
        rw [hnames, List.append_assoc, List.singleton_append, List.cons_append]
    | allocate preferred =>
      rw [perform, reservedNames, allocatedNames,
        (Grows.allocate s preferred).toList_eq, List.append_assoc, List.singleton_append]
      exact List.perm_middle.symm.append_left _

/-- Make the requests of a list one after the other, up to the first that fails.  What it yields
are the names of the allocations and the last scope. -/
def requestAll : Scope → List Request → Except RequestFailure (List String × Scope)
  | s, [] => .ok ([], s)
  | s, .reserve name :: rest => requestAll (s.reserve name) rest
  | s, .allocate preferred :: rest =>
    match s.request preferred with
    | .error failure => .error failure
    | .ok (name, after) => (requestAll after rest).map (Prod.map (name :: ·) id)

theorem size_le_performAll (s : Scope) (requests : List Request) :
    s.names.size ≤ (s.performAll requests).names.size := by
  have hlength : (s.performAll requests).names.size = _ :=
    (s.names_performAll_perm requests).length_eq
  rw [hlength, List.length_append]
  exact Nat.le_add_right _ _

/-- If the counter has room for the names that are taken in the end, no request fails on the
way, and all of them yield the names that are handed out without any search that could fail. -/
theorem requestAll_eq_ok {requests : List Request}
    (hroom : (s.performAll requests).names.size < UInt32.size) :
    s.requestAll requests = .ok (s.allocatedNames requests, s.performAll requests) := by
  induction requests generalizing s with
  | nil => rfl
  | cons request rest ih =>
    cases request with
    | reserve name => exact ih hroom
    | allocate preferred =>
      have hgrown : (s.allocate preferred).2.names.size = s.names.size + 1 := by
        have hlength := congrArg List.length (Grows.allocate s preferred).toList_eq
        rwa [List.length_append] at hlength
      have hlast := size_le_performAll (s.allocate preferred).2 rest
      have hfits : s.names.size < UInt32.size - 1 := by
        rw [performAll_cons, perform] at hroom
        omega
      obtain ⟨i, hsearch, -, hname⟩ := s.exists_search_eq_some preferred hfits
      have hlater := ih hroom
      rw [perform] at hlater
      rw [requestAll, request_eq_ok hsearch hname]
      dsimp only
      rw [hlater]
      rfl

/-- As long as fewer than `UInt32.size - 1` names are taken, a request succeeds, after at most one
candidate more than there are taken names.  It yields an identifier that was free, the closest
one to the cleaned base, and enters it behind the names that were taken; it yields what it
prefers exactly when that is an identifier that was free.  Over a sequence of requests the
names that allocations yield are distinct, and none of them was taken at the start, is taken by
a reservation, or was reserved before. -/
theorem request_yields_closest_fresh (s : Scope) (preferred : String)
    (hroom : s.names.size < UInt32.size - 1) :
    s.request preferred = .ok (s.allocate preferred) ∧
      (∃ i, s.search (bindingBase preferred) = some i ∧ i + 1 ≤ s.names.size + 1 ∧
        (s.allocate preferred).1 = candidate (bindingBase preferred) i) ∧
      (s.allocate preferred).1 ∉ s.names ∧
      (s.allocate preferred).2.names.toList = s.names.toList ++ [(s.allocate preferred).1] ∧
      (s.allocate preferred).2.names.toList.Nodup ∧
      isIdentifier (s.allocate preferred).1 = true ∧
      IsClosest s (bindingBase preferred) (s.allocate preferred).1 ∧
      ((s.allocate preferred).1 = preferred ↔
        isIdentifier preferred = true ∧ preferred ∉ s.names) ∧
      ∀ requests, (s.allocatedNames requests).Nodup ∧
        (∀ name ∈ s.allocatedNames requests,
          name ∉ s.names ∧ name ∉ s.reservedNames requests) ∧
        ∀ earlier later other, requests = earlier ++ .allocate other :: later →
          ∀ name, .reserve name ∈ earlier → ((s.performAll earlier).allocate other).1 ≠ name := by
  obtain ⟨i, hsearch, hle, hname⟩ := s.exists_search_eq_some preferred hroom
  refine ⟨request_eq_ok hsearch hname, ⟨i, hsearch, hle, hname⟩,
    s.allocate_notMem preferred, (Grows.allocate s preferred).toList_eq,
    (s.allocate preferred).2.names.nodup, s.isIdentifier_allocate preferred,
    s.isClosest_allocate preferred, s.allocate_fst_eq_iff preferred, fun requests => ?_⟩
  have hnodup := (s.names_performAll_perm requests).nodup_iff.mp (s.performAll requests).names.nodup
  obtain ⟨-, hlater, hstart⟩ := List.nodup_append.mp hnodup
  obtain ⟨-, hallocated, hreserved⟩ := List.nodup_append.mp hlater
  refine ⟨hallocated, fun name hname => ⟨fun hold => ?_, fun hold => ?_⟩, ?_⟩
  · exact hstart name hold name (List.mem_append_right _ hname) rfl
  · exact hreserved name hold name hname rfl
  · rintro earlier later other - name hmem rfl
    exact (s.performAll earlier).allocate_notMem other (mem_names_of_reserve_mem hmem)

/-- Next to a reserved word that has been asked for, to a name that looks numbered and to a
free name. -/
theorem request_yields_closest_fresh_numbered :
    (ofNames ["_default", "x", "_default_1"]).names.size < UInt32.size - 1 ∧
      (ofNames ["_default", "x", "_default_1"]).request "default" =
        .ok ("_default_2", ofNames ["_default", "x", "_default_1", "_default_2"]) ∧
      (ofNames ["_default", "x", "_default_1"]).search "_default" = some 2 := by
  have hroom : (ofNames ["_default", "x", "_default_1"]).names.size < UInt32.size - 1 := by decide
  have hname : (ofNames ["_default", "x", "_default_1"]).allocate "default" =
      ("_default_2", ofNames ["_default", "x", "_default_1", "_default_2"]) := by decide
  have hbase : bindingBase "default" = "_default" := by decide
  obtain ⟨hrequest, ⟨i, hsearch, -, hcandidate⟩, -⟩ :=
    request_yields_closest_fresh (ofNames ["_default", "x", "_default_1"]) "default" hroom
  rw [hname] at hrequest hcandidate
  rw [hbase] at hsearch hcandidate
  have hnumber : 2 = i := candidate_injective "_default" hcandidate
  exact ⟨hroom, hrequest, hnumber ▸ hsearch⟩

end Scope

end ModuleLinker
