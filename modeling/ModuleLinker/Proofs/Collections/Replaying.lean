import Mathlib.Data.List.Basic
import Mathlib.Data.List.Induction
import Mathlib.Data.Prod.Basic
import ModuleLinker.Collections.OrderedMap
import ModuleLinker.Collections.UniqueList

/-!
# Writing the same list twice

A list of steps writes into a set or a map, and then it is written once more into what it
left.  A set holds every element by then, so no step does anything.  In a map the second run
passes through other values than the first one, because it starts where that one ended.  Keys
keep their places, so the maps at the end are equal as soon as the steps under each key,
taken together, make the same of a value and of what they made of it.
-/

namespace ModuleLinker

/-- The last element of a list, or else a given one, is the same when it is chosen again. -/
theorem getLastD_getLastD {α : Type} (xs : List α) (x : α) :
    xs.getLastD (xs.getLastD x) = xs.getLastD x := by
  rw [List.getLastD_eq_getLast?, List.getLastD_eq_getLast?]
  cases xs.getLast? with
  | none => rfl
  | some last => rfl

namespace UniqueList

variable {α : Type} [DecidableEq α]

theorem insertAll_of_forall_mem {s : UniqueList α} {xs : List α} (h : ∀ x ∈ xs, x ∈ s) :
    s.insertAll xs = s := by
  induction xs with
  | nil => rfl
  | cons x xs ih =>
    rw [List.forall_mem_cons] at h
    rw [insertAll_cons, insert_of_mem h.1, ih h.2]

/-- Elements that were inserted are there already. -/
@[simp] theorem insertAll_insertAll (s : UniqueList α) (xs : List α) :
    (s.insertAll xs).insertAll xs = s.insertAll xs :=
  insertAll_of_forall_mem fun _ hx => mem_insertAll.mpr (Or.inr hx)

end UniqueList

namespace OrderedMap

variable {κ ν σ : Type} [DecidableEq κ]

/-- Maps with the same keys in the same order and the same value under each of them are
equal. -/
theorem ext_of_find? {m n : OrderedMap κ ν} (hkeys : m.keys = n.keys)
    (hfind : ∀ key, m.find? key = n.find? key) : m = n := by
  have hentries (o : OrderedMap κ ν) :
      o.entries.map (Prod.map id some) = o.keys.map fun key => (key, o.find? key) := by
    rw [keys, List.map_map]
    apply List.map_congr_left
    intro entry hentry
    exact Prod.ext rfl (find?_eq_some_iff.mpr hentry).symm
  have hinjective : Function.Injective (Prod.map (id : κ → κ) (some : ν → Option ν)) :=
    Function.injective_id.prodMap fun _ _ => Option.some.inj
  apply ext
  apply List.map_injective_iff.mpr hinjective
  rw [hentries, hentries, hkeys]
  simp only [hfind]

section

variable (key : σ → κ) (value : σ → Option ν → ν)

/-- The map after a step, which sets the value under its key to what it makes of the value
that is there, if there is one. -/
def write (m : OrderedMap κ ν) (step : σ) : OrderedMap κ ν :=
  m.insert (key step) (value step (m.find? (key step)))

/-- What the steps of a list, from its head on, make of the value under one key. -/
def written (target : κ) (steps : List σ) (start : Option ν) : Option ν :=
  steps.foldl (fun current step => if key step = target then some (value step current) else current)
    start

variable {key value} {m : OrderedMap κ ν} {target : κ} {steps : List σ}

theorem find?_foldl_write :
    (steps.foldl (write key value) m).find? target =
      written key value target steps (m.find? target) := by
  induction steps generalizing m with
  | nil => rfl
  | cons step rest ih =>
    rw [List.foldl_cons, ih, write, find?_insert, written, written, List.foldl_cons]
    split_ifs with heq
    · rw [heq]
    · rfl

theorem mem_keys_foldl_write :
    target ∈ (steps.foldl (write key value) m).keys ↔ target ∈ m.keys ∨ target ∈ steps.map key := by
  induction steps generalizing m with
  | nil => simp
  | cons step rest ih =>
    rw [List.foldl_cons, ih, write, mem_keys_insert, List.map_cons, List.mem_cons, or_assoc]

/-- Keys that are there keep their places. -/
theorem keys_foldl_write_of_forall_mem (h : ∀ step ∈ steps, key step ∈ m.keys) :
    (steps.foldl (write key value) m).keys = m.keys := by
  induction steps generalizing m with
  | nil => rfl
  | cons step rest ih =>
    rw [List.forall_mem_cons] at h
    have hkeys : (write key value m step).keys = m.keys := by
      rw [write, keys_insert, if_pos h.1]
    rw [List.foldl_cons, ih (hkeys ▸ h.2), hkeys]

/-- A list of steps can be repeated if it can be repeated under each key. -/
theorem foldl_write_foldl_write
    (h : ∀ target start, written key value target steps (written key value target steps start) =
      written key value target steps start) (m : OrderedMap κ ν) :
    steps.foldl (write key value) (steps.foldl (write key value) m) =
      steps.foldl (write key value) m := by
  apply ext_of_find?
  · apply keys_foldl_write_of_forall_mem
    intro step hstep
    exact mem_keys_foldl_write.mpr (Or.inr (List.mem_map_of_mem hstep))
  · intro target
    rw [find?_foldl_write, find?_foldl_write, h]

/-- Steps that do not ask for the value that is there can be repeated: the last one under a
key decides. -/
theorem written_written_of_forgetful
    (h : ∀ step current other, value step current = value step other)
    (target : κ) (steps : List σ) (start : Option ν) :
    written key value target steps (written key value target steps start) =
      written key value target steps start := by
  induction steps using List.reverseRecOn with
  | nil => rfl
  | append_singleton steps last ih =>
    have hlast (current : Option ν) : written key value target (steps ++ [last]) current =
        if key last = target then some (value last (written key value target steps current))
        else written key value target steps current := by
      rw [written, List.foldl_append]
      rfl
    rw [hlast, hlast]
    split_ifs with heq
    · rw [h]
    · exact ih

/-- Steps that take a missing value for a given one make what they make of a value of their
own key, and leave a value alone if none of them is under its key. -/
theorem written_of_default {f : ν → σ → ν} (start : ν)
    (h : ∀ step current, value step current = f (current.getD start) step)
    (target : κ) (steps : List σ) (current : Option ν) :
    written key value target steps current =
      if target ∈ steps.map key then
        some ((steps.filter fun step => decide (key step = target)).foldl f (current.getD start))
      else current := by
  induction steps generalizing current with
  | nil => rfl
  | cons step rest ih =>
    rw [written, List.foldl_cons]
    refine (ih _).trans ?_
    by_cases heq : key step = target
    · simp only [heq, if_true, h, List.map_cons, List.mem_cons, true_or, Option.getD_some,
        decide_true, List.filter_cons_of_pos, List.foldl_cons]
      split_ifs with hmem
      · rfl
      · rw [List.filter_eq_nil_iff.mpr, List.foldl_nil]
        intro other hother hkey
        exact hmem (of_decide_eq_true hkey ▸ List.mem_map_of_mem hother)
    · have hne : target ≠ key step := fun h => heq h.symm
      simp only [heq, if_false, List.map_cons, List.mem_cons, hne, false_or, decide_false,
        Bool.false_eq_true, not_false_eq_true, List.filter_cons_of_neg]

/-- Such steps can be repeated if those of any one key can. -/
theorem written_written_of_default {f : ν → σ → ν} (start : ν)
    (h : ∀ step current, value step current = f (current.getD start) step)
    (hf : ∀ (steps : List σ) (v : ν), steps.foldl f (steps.foldl f v) = steps.foldl f v)
    (target : κ) (steps : List σ) (current : Option ν) :
    written key value target steps (written key value target steps current) =
      written key value target steps current := by
  rw [written_of_default start h, written_of_default start h]
  split_ifs with hmem
  · rw [Option.getD_some, hf]
  · rfl

end

end OrderedMap

end ModuleLinker
