import Mathlib.Data.List.Nodup
import ModuleLinker.Collections.ArrangedSet

/-!
# Stable sorting

A comparator that is a total preorder may take different items for equal.  Sorting by it is
stable when such items keep their order, and then the sorted list is determined: there is
exactly one stable sort of a list.
-/

namespace ModuleLinker

variable {α : Type}

/-- A list sorted by a comparator.  Among items that compare equal the order is the one that
they have in the original list. -/
structure IsStableSort (compare : Comparator α) (items sorted : List α) : Prop where
  perm : sorted.Perm items
  ordered : sorted.Pairwise fun first second => (compare first second).isLE = true
  stable : ∀ x, (sorted.filter fun y => compare x y == .eq) =
    items.filter fun y => compare x y == .eq

variable {compare : Comparator α} [Std.TransCmp compare] {items xs ys : List α} {a b : α}

theorem isLE_total (a b : α) : ((compare a b).isLE || (compare b a).isLE) = true := by
  have hswap : compare b a = (compare a b).swap := Std.OrientedCmp.eq_swap
  rw [hswap]
  cases compare a b <;> rfl

/-- Items that compare equal to the same item are in order however they stand. -/
theorem pairwise_isLE_filter (compare : Comparator α) [Std.TransCmp compare] (x : α)
    (items : List α) :
    (items.filter fun y => compare x y == .eq).Pairwise fun a b => (compare a b).isLE = true := by
  apply List.pairwise_of_forall_mem_list
  intro a ha b hb
  have hax : compare a x = .eq :=
    Std.OrientedCmp.eq_comm.mp (eq_of_beq (List.mem_filter.mp ha).2)
  rw [Std.TransCmp.eq_trans hax (eq_of_beq (List.mem_filter.mp hb).2)]
  rfl

/-- Merge sort is stable: a class of equal items is in order already, so it survives as a
sublist, and the sorted list has no more items of the class. -/
theorem isStableSort_mergeSort (items : List α) :
    IsStableSort compare items (items.mergeSort fun a b => (compare a b).isLE) where
  perm := List.mergeSort_perm _ _
  ordered := List.pairwise_mergeSort (fun _ _ _ => Std.TransCmp.isLE_trans) isLE_total items
  stable x := by
    have hperm := List.mergeSort_perm items fun a b => (compare a b).isLE
    have hsublist := (List.sublist_mergeSort (fun _ _ _ => Std.TransCmp.isLE_trans) isLE_total
      (pairwise_isLE_filter compare x items) List.filter_sublist).filter
        fun y => compare x y == .eq
    simp only [List.filter_filter, Bool.and_self] at hsublist
    exact (hsublist.eq_of_length (hperm.filter _).length_eq.symm).symm

theorem isLE_of_mem_cons (h : (a :: xs).Pairwise fun a b => (compare a b).isLE = true)
    (hb : b ∈ a :: xs) : (compare a b).isLE = true := by
  rcases List.mem_cons.mp hb with rfl | hb
  · have hself : compare b b = .eq := Std.ReflCmp.compare_self
    rw [hself]
    rfl
  · exact List.rel_of_pairwise_cons h hb

/-- Ordered lists of the same items are equal if the items of each class come in the same
order. -/
theorem eq_of_pairwise_of_filter_eq (hperm : xs.Perm ys)
    (hxs : xs.Pairwise fun a b => (compare a b).isLE = true)
    (hys : ys.Pairwise fun a b => (compare a b).isLE = true)
    (hfilter : ∀ x, (xs.filter fun y => compare x y == .eq) =
      ys.filter fun y => compare x y == .eq) : xs = ys := by
  induction xs generalizing ys with
  | nil => exact (List.nil_perm.mp hperm).symm
  | cons a xs ih =>
    cases ys with
    | nil => exact absurd hperm.symm (List.not_perm_nil_cons a xs)
    | cons b ys =>
      have hself : compare a a = .eq := Std.ReflCmp.compare_self
      have hab : compare a b = .eq := Std.OrientedCmp.isLE_antisymm
        (isLE_of_mem_cons hxs (hperm.mem_iff.mpr List.mem_cons_self))
        (isLE_of_mem_cons hys (hperm.mem_iff.mp List.mem_cons_self))
      -- the heads compare equal, so each is the first of one and the same class
      have hheads := hfilter a
      rw [List.filter_cons_of_pos (by rw [hself]; rfl),
        List.filter_cons_of_pos (by rw [hab]; rfl)] at hheads
      obtain rfl := (List.cons.inj hheads).1
      congr 1
      apply ih hperm.cons_inv hxs.of_cons hys.of_cons
      intro x
      have hclass := hfilter x
      rw [List.filter_cons, List.filter_cons] at hclass
      split at hclass
      · exact (List.cons.inj hclass).2
      · exact hclass

/-- There is only one stable sort. -/
theorem IsStableSort.unique (hxs : IsStableSort compare items xs)
    (hys : IsStableSort compare items ys) : xs = ys :=
  eq_of_pairwise_of_filter_eq (hxs.perm.trans hys.perm.symm) hxs.ordered hys.ordered
    fun x => (hxs.stable x).trans (hys.stable x).symm

end ModuleLinker
