import Mathlib.Tactic.Tauto
import ModuleLinker.Proofs.Collections.StableSort

/-!
# Arranged sets behave like plain ones

A plain set is a list without repetitions and a comparator in force, and it remembers
nothing: each time it is asked, it sorts its items anew.  An arranged set remembers
positions in a list that shifts when an item is taken out.  Whatever is asked of the two in
whatever order, they give the same replies, because a remembered order is always the one that
would be computed now.  When the order is remembered can be told from the requests alone.
-/

namespace ModuleLinker

variable {α : Type}

/-! ## Requests -/

/-- What a set can be asked.  To enumerate is to iterate over the set as well as to write it
out as a sequence. -/
inductive SetRequest (α : Type)
  | insert (x : α)
  | erase (x : α)
  | clear
  | insertAll (xs : List α)
  | contains (x : α)
  | first
  | enumerate
  | useStanding
  | useComparator (comparator : Comparator α)
  | copy

/-- What a set replies. -/
inductive SetReply (α : Type)
  | done
  | flag (value : Bool)
  | item (found : Option α)
  | items (order : List α)
deriving DecidableEq

namespace SetRequest

/-- Whether a request reads the order of the items. -/
def IsRead : SetRequest α → Prop
  | first => True
  | enumerate => True
  | _ => False

/-- The replies to a list of requests and the set after them, given what a set does with one
request.  A copied set is the one that the later requests go to. -/
def performAll {σ : Type} (perform : σ → SetRequest α → SetReply α × σ) :
    σ → List (SetRequest α) → List (SetReply α) × σ
  | s, [] => ([], s)
  | s, request :: rest =>
    let later := performAll perform (perform s request).2 rest
    ((perform s request).1 :: later.1, later.2)

end SetRequest

/-- What an arranged set does with a request. -/
def ArrangedSet.perform [DecidableEq α] (s : ArrangedSet α) :
    SetRequest α → SetReply α × ArrangedSet α
  | .insert x => (.flag (s.insert x).1, (s.insert x).2)
  | .erase x => (.flag (s.erase x).1, (s.erase x).2)
  | .clear => (.done, s.clear)
  | .insertAll xs => (.done, s.insertAll xs)
  | .contains x => (.flag (s.contains x), s)
  | .first => (.item s.first.1, s.first.2)
  | .enumerate => (.items s.enumerate.1, s.enumerate.2)
  | .useStanding => (.done, s.useStanding)
  | .useComparator comparator => (.done, s.useComparator comparator)
  | .copy => (.done, s.copy)

/-! ## Plain sets -/

/-- Items in the order of their insertion, the comparator chosen at construction, and the
comparator in force. -/
structure PlainSet (α : Type) where
  items : List α
  standing : Option (Comparator α)
  active : Option (Comparator α)

namespace PlainSet

/-- An empty plain set with a standing comparator, which is not in force yet. -/
def withStanding (standing : Option (Comparator α)) : PlainSet α := ⟨[], standing, none⟩

/-- The items sorted by the comparator in force, or as they are when there is none. -/
def enumeration (p : PlainSet α) : List α :=
  match p.active with
  | none => p.items
  | some compare => p.items.mergeSort fun a b => (compare a b).isLE

/-- Whether a list is the order of the items: the stable sort by the comparator in force, or
the order of insertion when there is none. -/
def Enumerates (p : PlainSet α) (order : List α) : Prop :=
  match p.active with
  | none => order = p.items
  | some compare => IsStableSort compare p.items order

theorem enumerates_iff {p : PlainSet α} (hactive : ∀ compare ∈ p.active, Std.TransCmp compare)
    {order : List α} : p.Enumerates order ↔ order = p.enumeration := by
  obtain ⟨items, standing, active⟩ := p
  cases active with
  | none => exact Iff.rfl
  | some compare =>
    have := hactive compare rfl
    exact ⟨fun h => h.unique (isStableSort_mergeSort items),
      fun h => h ▸ isStableSort_mergeSort items⟩

/-- The enumeration holds every item exactly as often as the set does. -/
theorem enumeration_perm (p : PlainSet α) : p.enumeration.Perm p.items := by
  obtain ⟨items, standing, active⟩ := p
  cases active with
  | none => exact List.Perm.refl items
  | some compare => exact List.mergeSort_perm items _

variable [DecidableEq α]

/-- Put an item at the end, unless it is present. -/
def insert (p : PlainSet α) (x : α) : PlainSet α :=
  if x ∈ p.items then p else { p with items := p.items ++ [x] }

/-- What a plain set does with a request. -/
def perform (p : PlainSet α) : SetRequest α → SetReply α × PlainSet α
  | .insert x => (.flag (decide (x ∉ p.items)), p.insert x)
  | .erase x => (.flag (decide (x ∈ p.items)), { p with items := p.items.erase x })
  | .clear => (.done, { p with items := [] })
  | .insertAll xs => (.done, xs.foldl insert p)
  | .contains x => (.flag (decide (x ∈ p.items)), p)
  | .first => (.item p.enumeration.head?, p)
  | .enumerate => (.items p.enumeration, p)
  | .useStanding => (.done, { p with active := p.standing })
  | .useComparator comparator => (.done, { p with active := some comparator })
  | .copy => (.done, p)

/-- Whether a request changes the items, or clears the set or sets a comparator, which count
as changes even if everything stays the same. -/
def Changes (p : PlainSet α) : SetRequest α → Prop
  | .insert x => x ∉ p.items
  | .erase x => x ∈ p.items
  | .clear => True
  | .insertAll xs => ∃ x ∈ xs, x ∉ p.items
  | .useStanding => True
  | .useComparator _ => True
  | _ => False

/-- Requests, each with the set of which it is asked. -/
def history : PlainSet α → List (SetRequest α) → List (PlainSet α × SetRequest α)
  | _, [] => []
  | p, request :: rest => (p, request) :: history (p.perform request).2 rest

/-- Whether some request of a history reads the order and no later one changes the set. -/
def ReadSinceChange (history : List (PlainSet α × SetRequest α)) : Prop :=
  ∃ earlier read later, history = earlier ++ read :: later ∧ read.2.IsRead ∧
    ∀ asked ∈ later, ¬ asked.1.Changes asked.2

omit [DecidableEq α] in
theorem not_readSinceChange_nil : ¬ ReadSinceChange ([] : List (PlainSet α × SetRequest α)) := by
  rintro ⟨earlier, read, later, hsplit, -⟩
  exact List.append_ne_nil_of_right_ne_nil earlier (List.cons_ne_nil read later) hsplit.symm

omit [DecidableEq α] in
theorem readSinceChange_cons_iff {first : PlainSet α × SetRequest α}
    {rest : List (PlainSet α × SetRequest α)} :
    ReadSinceChange (first :: rest) ↔
      (first.2.IsRead ∧ ∀ asked ∈ rest, ¬ asked.1.Changes asked.2) ∨ ReadSinceChange rest := by
  constructor
  · rintro ⟨earlier, read, later, hsplit, hread, hquiet⟩
    cases earlier with
    | nil =>
      obtain ⟨rfl, rfl⟩ := List.cons.inj hsplit
      exact Or.inl ⟨hread, hquiet⟩
    | cons _ earlier => exact Or.inr ⟨earlier, read, later, (List.cons.inj hsplit).2, hread, hquiet⟩
  · rintro (⟨hread, hquiet⟩ | ⟨earlier, read, later, rfl, hread, hquiet⟩)
    · exact ⟨[], first, rest, rfl, hread, hquiet⟩
    · exact ⟨first :: earlier, read, later, rfl, hread, hquiet⟩

theorem exists_foldl_insert (p : PlainSet α) (xs : List α) :
    ∃ items, xs.foldl insert p = { p with items } := by
  induction xs generalizing p with
  | nil => exact ⟨p.items, rfl⟩
  | cons x xs ih =>
    rw [List.foldl_cons, insert]
    split
    · exact ih p
    · exact ih { p with items := p.items ++ [x] }

/-- A request leaves the comparator in force, or returns to the standing one, or brings
another one. -/
theorem active_perform (p : PlainSet α) (request : SetRequest α) :
    (p.perform request).2.standing = p.standing ∧
      ((p.perform request).2.active = p.active ∨ (p.perform request).2.active = p.standing ∨
        ∃ compare, request = .useComparator compare ∧
          (p.perform request).2.active = some compare) := by
  cases request with
  | insert x =>
    obtain ⟨items, hitems⟩ := p.exists_foldl_insert [x]
    have hinsert : (p.perform (.insert x)).2 = { p with items } := hitems
    rw [hinsert]
    exact ⟨rfl, Or.inl rfl⟩
  | insertAll xs =>
    obtain ⟨items, hitems⟩ := p.exists_foldl_insert xs
    rw [perform, hitems]
    exact ⟨rfl, Or.inl rfl⟩
  | useStanding => exact ⟨rfl, Or.inr (Or.inl rfl)⟩
  | useComparator compare => exact ⟨rfl, Or.inr (Or.inr ⟨compare, rfl, rfl⟩)⟩
  | _ => exact ⟨rfl, Or.inl rfl⟩

/-- The comparator in force is the standing one or one that was set. -/
theorem forall_mem_active_performAll {q : Comparator α → Prop} {p : PlainSet α}
    (hstanding : ∀ compare ∈ p.standing, q compare) (hactive : ∀ compare ∈ p.active, q compare)
    {requests : List (SetRequest α)}
    (hrequests : ∀ compare, .useComparator compare ∈ requests → q compare) :
    ∀ compare ∈ (SetRequest.performAll perform p requests).2.active, q compare := by
  induction requests generalizing p with
  | nil => exact hactive
  | cons request rest ih =>
    obtain ⟨hkeeps, hsets⟩ := p.active_perform request
    refine ih (by rwa [hkeeps]) ?_ fun compare h => hrequests compare (List.mem_cons_of_mem _ h)
    rcases hsets with hsame | hreturn | ⟨compare, rfl, hnew⟩
    · rwa [hsame]
    · rwa [hreturn]
    · rw [hnew]
      intro other hother
      rw [← Option.some.inj hother]
      exact hrequests compare List.mem_cons_self

end PlainSet

/-! ## The two side by side -/

namespace ArrangedSet

open SetRequest (performAll)

theorem filterMap_map_val (items : List α) (positions : List (Fin items.length)) :
    (positions.map Fin.val).filterMap (fun i => items[i]?) = positions.map items.get := by
  rw [List.filterMap_map, ← List.filterMap_eq_map]
  apply List.filterMap_congr
  intro i _
  exact List.getElem?_eq_getElem i.isLt

/-- The items at the arranged positions are the sorted items. -/
theorem filterMap_arrangedPositions (p : PlainSet α) :
    (arrangedPositions p.active p.items).filterMap (fun i => p.items[i]?) = p.enumeration := by
  obtain ⟨items, standing, active⟩ := p
  cases active with
  | none => exact (filterMap_map_val items _).trans (List.map_get_finRange items)
  | some compare =>
    have hsort : ((List.finRange items.length).mergeSort fun first second =>
        (compare (items.get first) (items.get second)).isLE).map items.get =
          ((List.finRange items.length).map items.get).mergeSort fun first second =>
            (compare first second).isLE := List.map_mergeSort fun _ _ _ _ => rfl
    rw [List.map_get_finRange] at hsort
    exact (filterMap_map_val items _).trans hsort

/-- An arranged set that stands for a plain one: they have the same items and comparators,
and an order that is remembered is the one that the plain set would compute now. -/
structure Represents (s : ArrangedSet α) (p : PlainSet α) : Prop where
  items_eq : s.items.toList = p.items
  standing_eq : s.standing = p.standing
  active_eq : s.active = p.active
  remembered_eq : ∀ positions ∈ s.remembered, positions = arrangedPositions p.active p.items

namespace Represents

variable {s : ArrangedSet α} {p : PlainSet α}

theorem withStanding (standing : Option (Comparator α)) :
    (ArrangedSet.withStanding standing).Represents (.withStanding standing) :=
  ⟨rfl, rfl, rfl, fun _ h => absurd h (Option.not_mem_none _)⟩

/-- A set that has just forgotten its order need only have the items and comparators. -/
theorem forget (hitems : s.items.toList = p.items) (hstanding : s.standing = p.standing)
    (hactive : s.active = p.active) : s.forget.Represents p :=
  ⟨hitems, hstanding, hactive, fun _ h => absurd h (Option.not_mem_none _)⟩

theorem positions_eq (h : s.Represents p) : s.positions = arrangedPositions p.active p.items := by
  rw [positions, h.active_eq, h.items_eq]
  cases hremembered : s.remembered with
  | none => rfl
  | some positions => exact h.remembered_eq positions hremembered

theorem enumerate_eq (h : s.Represents p) : s.enumerate.1 = p.enumeration := by
  rw [← filterMap_arrangedPositions, enumerate, h.positions_eq, h.items_eq]

/-- Reading the order makes the set remember it, and changes nothing else. -/
theorem enumerate (h : s.Represents p) : s.enumerate.2.Represents p where
  items_eq := h.items_eq
  standing_eq := h.standing_eq
  active_eq := h.active_eq
  remembered_eq positions hpositions := by
    rw [← Option.some.inj hpositions]
    exact h.positions_eq

variable [DecidableEq α]

theorem contains_eq (h : s.Represents p) (x : α) : s.contains x = decide (x ∈ p.items) := by
  rw [← h.items_eq]
  rfl

theorem insert (h : s.Represents p) (x : α) : (s.insert x).2.Represents (p.insert x) := by
  rw [ArrangedSet.insert, PlainSet.insert, h.contains_eq]
  by_cases hx : x ∈ p.items
  · rw [if_pos (decide_eq_true hx), if_pos hx]
    exact h
  · rw [if_neg (by simpa using hx), if_neg hx]
    refine forget ?_ h.standing_eq h.active_eq
    rw [← h.items_eq] at hx ⊢
    exact UniqueList.toList_insert_of_notMem hx

theorem insertAll (h : s.Represents p) (xs : List α) :
    (s.insertAll xs).Represents (xs.foldl PlainSet.insert p) := by
  induction xs generalizing s p with
  | nil => exact h
  | cons x xs ih => exact ih (h.insert x)

theorem erase (h : s.Represents p) (x : α) :
    (s.erase x).2.Represents { p with items := p.items.erase x } := by
  rw [ArrangedSet.erase, h.contains_eq]
  by_cases hx : x ∈ p.items
  · rw [if_pos (decide_eq_true hx)]
    refine forget ?_ h.standing_eq h.active_eq
    rw [UniqueList.toList_erase, h.items_eq]
  · rw [if_neg (by simpa using hx), List.erase_of_not_mem hx]
    exact h

/-- A request gets the same reply from both sets, and afterwards the one still stands for the
other. -/
theorem perform (h : s.Represents p) (request : SetRequest α) :
    (s.perform request).1 = (p.perform request).1 ∧
      (s.perform request).2.Represents (p.perform request).2 := by
  cases request with
  | insert x =>
    refine ⟨congrArg SetReply.flag ?_, h.insert x⟩
    rw [ArrangedSet.insert, h.contains_eq]
    by_cases hx : x ∈ p.items <;> simp [hx]
  | erase x =>
    refine ⟨congrArg SetReply.flag ?_, h.erase x⟩
    rw [ArrangedSet.erase, h.contains_eq]
    by_cases hx : x ∈ p.items <;> simp [hx]
  | clear => exact ⟨rfl, forget rfl h.standing_eq h.active_eq⟩
  | insertAll xs => exact ⟨rfl, h.insertAll xs⟩
  | contains x => exact ⟨congrArg SetReply.flag (h.contains_eq x), h⟩
  | first =>
    refine ⟨congrArg SetReply.item ?_, h.enumerate⟩
    rw [ArrangedSet.first, h.enumerate_eq]
  | enumerate => exact ⟨congrArg SetReply.items h.enumerate_eq, h.enumerate⟩
  | useStanding => exact ⟨rfl, forget h.items_eq h.standing_eq h.standing_eq⟩
  | useComparator comparator => exact ⟨rfl, forget h.items_eq h.standing_eq rfl⟩
  | copy => exact ⟨rfl, h⟩

theorem hasRemembered_insertAll (h : s.Represents p) (xs : List α) :
    (s.insertAll xs).hasRemembered = true ↔
      s.hasRemembered = true ∧ ¬ ∃ x ∈ xs, x ∉ p.items := by
  induction xs generalizing s p with
  | nil => simp [ArrangedSet.insertAll]
  | cons x xs ih =>
    have hrest : (s.insertAll (x :: xs)).hasRemembered = true ↔
        (s.insert x).2.hasRemembered = true ∧ ¬ ∃ y ∈ xs, y ∉ (p.insert x).items :=
      ih (h.insert x)
    rw [hrest, List.exists_mem_cons_iff, ArrangedSet.insert, PlainSet.insert, h.contains_eq]
    by_cases hx : x ∈ p.items
    · simp [hx]
    · simp [hx, ArrangedSet.forget, hasRemembered]

/-- After a request the order is remembered if the request reads it, or if it was remembered
before and the request does not change the set. -/
theorem hasRemembered_perform (h : s.Represents p) (request : SetRequest α) :
    (s.perform request).2.hasRemembered = true ↔
      request.IsRead ∨ s.hasRemembered = true ∧ ¬ p.Changes request := by
  cases request with
  | insert x =>
    refine (h.hasRemembered_insertAll [x]).trans ?_
    simp [SetRequest.IsRead, PlainSet.Changes]
  | erase x =>
    rw [ArrangedSet.perform, ArrangedSet.erase, h.contains_eq]
    by_cases hx : x ∈ p.items <;>
      simp [hx, ArrangedSet.forget, hasRemembered, SetRequest.IsRead, PlainSet.Changes]
  | insertAll xs =>
    refine (h.hasRemembered_insertAll xs).trans ?_
    simp [SetRequest.IsRead, PlainSet.Changes]
  | _ =>
    simp [ArrangedSet.perform, ArrangedSet.clear, ArrangedSet.first, ArrangedSet.enumerate,
      ArrangedSet.useStanding, ArrangedSet.useComparator, ArrangedSet.copy, ArrangedSet.forget,
      hasRemembered, SetRequest.IsRead, PlainSet.Changes]

/-- A run of requests gets the same replies from both sets. -/
theorem performAll (h : s.Represents p) (requests : List (SetRequest α)) :
    (SetRequest.performAll ArrangedSet.perform s requests).1 =
        (SetRequest.performAll PlainSet.perform p requests).1 ∧
      (SetRequest.performAll ArrangedSet.perform s requests).2.Represents
        (SetRequest.performAll PlainSet.perform p requests).2 := by
  induction requests generalizing s p with
  | nil => exact ⟨rfl, h⟩
  | cons request rest ih =>
    obtain ⟨hreply, hafter⟩ := h.perform request
    obtain ⟨hreplies, hlast⟩ := ih hafter
    exact ⟨congrArg₂ List.cons hreply hreplies, hlast⟩

/-- After a run the order is remembered if some request reads it and none after that changes
the set, or if it was remembered at the start and nothing changes the set. -/
theorem hasRemembered_performAll (h : s.Represents p) (requests : List (SetRequest α)) :
    (SetRequest.performAll ArrangedSet.perform s requests).2.hasRemembered = true ↔
      PlainSet.ReadSinceChange (p.history requests) ∨
        s.hasRemembered = true ∧ ∀ asked ∈ p.history requests, ¬ asked.1.Changes asked.2 := by
  induction requests generalizing s p with
  | nil => simp [SetRequest.performAll, PlainSet.history, PlainSet.not_readSinceChange_nil]
  | cons request rest ih =>
    refine (ih (h.perform request).2).trans ?_
    rw [h.hasRemembered_perform, PlainSet.history, PlainSet.readSinceChange_cons_iff,
      List.forall_mem_cons]
    tauto

end Represents

/-- An arranged set behaves as a plain one that remembers nothing.  Whatever is asked of the
two, from their construction on and with any comparators that are total preorders, they give
the same replies and have the same distinct items.  The order that the plain set replies has
each item once, and it is the stable sort by the comparator in force, or the order of
insertion.  The arranged set remembers its order exactly when the order was read after the
last change. -/
theorem refines_plain [DecidableEq α] (standing : Option (Comparator α))
    (requests : List (SetRequest α)) (hstanding : ∀ compare ∈ standing, Std.TransCmp compare)
    (hrequests : ∀ compare, .useComparator compare ∈ requests → Std.TransCmp compare) :
    let arranged := performAll perform (withStanding standing) requests
    let plain := performAll PlainSet.perform (.withStanding standing) requests
    arranged.1 = plain.1 ∧
      arranged.2.items.toList = plain.2.items ∧ plain.2.items.Nodup ∧
      plain.2.enumeration.Perm plain.2.items ∧
      (∀ order, plain.2.Enumerates order ↔ order = plain.2.enumeration) ∧
      (arranged.2.hasRemembered = true ↔
        PlainSet.ReadSinceChange ((PlainSet.withStanding standing).history requests)) := by
  intro arranged plain
  obtain ⟨hreplies, hlast⟩ := (Represents.withStanding standing).performAll requests
  have hremembered := (Represents.withStanding standing).hasRemembered_performAll requests
  have hactive := PlainSet.forall_mem_active_performAll (p := .withStanding standing) hstanding
    (fun _ h => absurd h (Option.not_mem_none _)) hrequests
  refine ⟨hreplies, hlast.items_eq, hlast.items_eq ▸ arranged.2.items.nodup,
    plain.2.enumeration_perm, fun order => PlainSet.enumerates_iff hactive, ?_⟩
  refine hremembered.trans (or_iff_left ?_)
  rintro ⟨hfresh, -⟩
  exact Bool.noConfusion hfresh

/-- Of two numbers with the same last digit the one that is taken out and put in again comes
last, and the order is read after that. -/
theorem refines_plain_reinserted :
    let standing : Comparator Nat := compareOn (· % 10)
    let requests : List (SetRequest Nat) :=
      [.insertAll [13, 2, 3, 2], .useStanding, .enumerate, .erase 13, .insert 13, .insert 2,
        .enumerate, .contains 4]
    let arranged := performAll perform (withStanding (some standing)) requests
    arranged.1 = [.done, .done, .items [2, 13, 3], .flag true, .flag true, .flag false,
      .items [2, 3, 13], .flag false] ∧ arranged.2.hasRemembered = true := by
  intro standing requests arranged
  have hstanding : ∀ compare ∈ some standing, Std.TransCmp compare := by
    intro compare hcompare
    rw [← Option.some.inj hcompare]
    infer_instance
  obtain ⟨hreplies, -, -, -, -, hremembered⟩ := refines_plain (some standing) requests hstanding
    (fun compare h => absurd h (by simp [requests]))
  have hearly : [13, 2, 3].mergeSort (fun a b => (standing a b).isLE) = [2, 13, 3] := by
    simp [standing, compareOn, List.mergeSort, compare, compareOfLessAndEq]
  have hlate : [2, 3, 13].mergeSort (fun a b => (standing a b).isLE) = [2, 3, 13] := by
    simp [standing, compareOn, List.mergeSort, compare, compareOfLessAndEq]
  have hplain : (performAll PlainSet.perform (.withStanding (some standing)) requests).1 =
      [.done, .done, .items ([13, 2, 3].mergeSort fun a b => (standing a b).isLE), .flag true,
        .flag true, .flag false, .items ([2, 3, 13].mergeSort fun a b => (standing a b).isLE),
        .flag false] := rfl
  rw [hearly, hlate] at hplain
  refine ⟨hreplies.trans hplain, hremembered.mpr ?_⟩
  refine ⟨((PlainSet.withStanding (some standing)).history requests).take 6,
    ⟨⟨[2, 3, 13], some standing, some standing⟩, .enumerate⟩, [⟨_, .contains 4⟩], rfl, trivial, ?_⟩
  intro asked hasked
  rw [List.mem_singleton.mp hasked]
  exact id

end ArrangedSet

end ModuleLinker
