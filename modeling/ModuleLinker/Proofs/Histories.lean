import Mathlib.Data.List.Induction
import ModuleLinker.Chunks
import ModuleLinker.Imports.Graph

/-!
# Histories of the import graph and of the chunks

Linking reads the import graph and the chunks as they stand after any number of edits.
The import graph only grows: an import is in it when it was recorded at some time, once
or often.  A chunk is there as long as no later one has its number.
-/

namespace ModuleLinker

/-- One edit of the import graph. -/
inductive ImportEdit
  | add (module : ModuleId)
  | addImport (importer imported : ModuleId)
  | setAsynchronous (module : ModuleId)
deriving DecidableEq, Repr

namespace ImportEdit

/-- The modules that an edit makes known, in order. -/
def modules : ImportEdit → List ModuleId
  | add module => [module]
  | addImport importer imported => [importer, imported]
  | setAsynchronous module => [module]

/-- The imports that an edit records. -/
def imports : ImportEdit → List (ModuleId × ModuleId)
  | addImport importer imported => [(importer, imported)]
  | add _ | setAsynchronous _ => []

/-- The modules of which an edit says that they evaluate asynchronously. -/
def asynchronous : ImportEdit → List ModuleId
  | setAsynchronous module => [module]
  | add _ | addImport _ _ => []

theorem mem_imports_iff {edit : ImportEdit} {importer imported : ModuleId} :
    (importer, imported) ∈ edit.imports ↔ edit = .addImport importer imported := by
  cases edit with
  | add module => simp [imports]
  | addImport first second => simp [imports, eq_comm]
  | setAsynchronous module => simp [imports]

theorem mem_asynchronous_iff {edit : ImportEdit} {module : ModuleId} :
    module ∈ edit.asynchronous ↔ edit = .setAsynchronous module := by
  cases edit with
  | add other => simp [asynchronous]
  | addImport importer imported => simp [asynchronous]
  | setAsynchronous other => simp [asynchronous, eq_comm]

end ImportEdit

namespace ImportGraph

/-- The graph after an edit. -/
def apply (g : ImportGraph) : ImportEdit → ImportGraph
  | .add module => g.add module
  | .addImport importer imported => g.addImport importer imported
  | .setAsynchronous module => g.setAsynchronous module

/-- The graph after a list of edits, from its head on. -/
def ofEdits (edits : List ImportEdit) : ImportGraph := edits.foldl apply ∅

/-- Edits only insert. -/
theorem foldl_apply_eq (g : ImportGraph) (edits : List ImportEdit) :
    edits.foldl apply g =
      ⟨g.modules.insertAll (edits.flatMap ImportEdit.modules),
        g.imports.insertAll (edits.flatMap ImportEdit.imports),
        g.asynchronous.insertAll (edits.flatMap ImportEdit.asynchronous)⟩ := by
  induction edits generalizing g with
  | nil => rfl
  | cons edit rest ih =>
    rw [List.foldl_cons, ih]
    simp only [List.flatMap_cons, UniqueList.insertAll_append]
    cases edit with
    | add module => rfl
    | addImport importer imported => rfl
    | setAsynchronous module => rfl

theorem mem_imports_foldl_apply_iff {g : ImportGraph} {edits : List ImportEdit}
    {importer imported : ModuleId} :
    (importer, imported) ∈ (edits.foldl apply g).imports ↔
      (importer, imported) ∈ g.imports ∨ .addImport importer imported ∈ edits := by
  rw [foldl_apply_eq, UniqueList.mem_insertAll, List.mem_flatMap]
  simp only [ImportEdit.mem_imports_iff, exists_eq_right]

theorem mem_asynchronous_foldl_apply_iff {g : ImportGraph} {edits : List ImportEdit}
    {module : ModuleId} :
    module ∈ (edits.foldl apply g).asynchronous ↔
      module ∈ g.asynchronous ∨ .setAsynchronous module ∈ edits := by
  rw [foldl_apply_eq, UniqueList.mem_insertAll, List.mem_flatMap]
  simp only [ImportEdit.mem_asynchronous_iff, exists_eq_right]

/-- The imports of a graph are those that were ever recorded. -/
theorem mem_imports_ofEdits_iff {edits : List ImportEdit} {importer imported : ModuleId} :
    (importer, imported) ∈ (ofEdits edits).imports ↔ .addImport importer imported ∈ edits := by
  rw [ofEdits, mem_imports_foldl_apply_iff]
  exact or_iff_right (UniqueList.notMem_empty _)

/-- A module is imported if anything imports it, itself included. -/
theorem isImported_iff {g : ImportGraph} {module : ModuleId} :
    g.isImported module = true ↔ ∃ importer, (importer, module) ∈ g.imports := by
  rw [isImported, List.any_eq_true]
  constructor
  · rintro ⟨⟨importer, imported⟩, hlink, heq⟩
    obtain rfl := of_decide_eq_true heq
    exact ⟨importer, hlink⟩
  · rintro ⟨importer, hlink⟩
    exact ⟨(importer, module), hlink, decide_eq_true rfl⟩

end ImportGraph

/-- A set has at most one element exactly when all its elements are the same. -/
theorem UniqueList.size_le_one_iff {α : Type} {s : UniqueList α} :
    s.size ≤ 1 ↔ ∀ first ∈ s, ∀ second ∈ s, first = second := by
  obtain ⟨items, hnodup⟩ := s
  change items.length ≤ 1 ↔ ∀ first ∈ items, ∀ second ∈ items, first = second
  match items with
  | [] => simp
  | [x] => simp
  | x :: y :: rest =>
    have hne : x ≠ y := fun heq => (List.nodup_cons.mp hnodup).1 (heq ▸ List.mem_cons_self)
    refine iff_of_false (by simp) fun hall => hne ?_
    exact hall x List.mem_cons_self y (List.mem_cons_of_mem _ List.mem_cons_self)

namespace Chunk

/-- The entries of a chunk are among its modules. -/
def Closed (chunk : Chunk) : Prop := ∀ module ∈ chunk.entries, module ∈ chunk.modules

theorem Closed.addEntry {chunk : Chunk} (h : chunk.Closed) (module : ModuleId) :
    (chunk.addEntry module).Closed := by
  intro other hother
  exact UniqueList.mem_insert.mpr ((UniqueList.mem_insert.mp hother).imp_left (h other))

/-- Chunks are made so that they hold their entries. -/
theorem closed_ofModules (id : ChunkId) (name : Option String) (hasRuntime : Bool)
    (modules entries : List ModuleId) :
    (ofModules id name hasRuntime modules entries).Closed := by
  have hfold {chunk : Chunk} (h : chunk.Closed) : (entries.foldl addEntry chunk).Closed := by
    induction entries generalizing chunk with
    | nil => exact h
    | cons entry rest ih => exact ih (h.addEntry entry)
  exact hfold fun _ hmem => absurd hmem (UniqueList.notMem_empty _)

theorem id_ofModules (id : ChunkId) (name : Option String) (hasRuntime : Bool)
    (modules entries : List ModuleId) : (ofModules id name hasRuntime modules entries).id = id := by
  have hfold (chunk : Chunk) : (entries.foldl addEntry chunk).id = chunk.id := by
    induction entries generalizing chunk with
    | nil => rfl
    | cons entry rest ih => exact ih (chunk.addEntry entry)
  exact hfold _

/-- A chunk that is in a list, and after which no other one has its number. -/
def IsCurrent (chunk : Chunk) (chunks : List Chunk) : Prop :=
  ∃ before after, chunks = before ++ chunk :: after ∧ ∀ other ∈ after, other.id ≠ chunk.id

theorem IsCurrent.mem {chunk : Chunk} {chunks : List Chunk} (h : chunk.IsCurrent chunks) :
    chunk ∈ chunks := by
  obtain ⟨before, after, rfl, -⟩ := h
  exact List.mem_append_right before List.mem_cons_self

/-- Among chunks with distinct numbers all are current. -/
theorem isCurrent_iff_mem {chunks : List Chunk} (h : (chunks.map Chunk.id).Nodup)
    {chunk : Chunk} : chunk.IsCurrent chunks ↔ chunk ∈ chunks := by
  refine ⟨IsCurrent.mem, fun hmem => ?_⟩
  obtain ⟨before, after, rfl⟩ := List.append_of_mem hmem
  rw [List.map_append, List.map_cons, List.nodup_append] at h
  refine ⟨before, after, rfl, fun other hother heq => ?_⟩
  have hmem : chunk.id ∈ after.map Chunk.id := heq ▸ List.mem_map_of_mem hother
  exact (List.nodup_cons.mp h.2.1).1 hmem

theorem isCurrent_append_singleton {chunk last : Chunk} {chunks : List Chunk} :
    chunk.IsCurrent (chunks ++ [last]) ↔
      chunk = last ∨ last.id ≠ chunk.id ∧ chunk.IsCurrent chunks := by
  constructor
  · rintro ⟨before, after, heq, hafter⟩
    rcases List.eq_nil_or_concat after with rfl | ⟨after, final, rfl⟩
    · exact Or.inl (List.cons.inj (List.append_inj_right' heq rfl)).1.symm
    · rw [List.concat_eq_append] at heq hafter
      rw [← List.cons_append, ← List.append_assoc] at heq
      obtain ⟨rfl, hlast⟩ := List.append_inj' heq rfl
      obtain ⟨rfl, -⟩ := List.cons.inj hlast
      exact Or.inr ⟨hafter _ (List.mem_append_right _ List.mem_cons_self), before, after, rfl,
        fun other hother => hafter other (List.mem_append_left _ hother)⟩
  · rintro (rfl | ⟨hlast, before, after, rfl, hafter⟩)
    · exact ⟨chunks, [], rfl, fun _ h => absurd h List.not_mem_nil⟩
    · refine ⟨before, after ++ [last], by simp, fun other hother => ?_⟩
      rcases List.mem_append.mp hother with hother | hother
      · exact hafter other hother
      · rw [List.mem_singleton.mp hother]
        exact hlast

end Chunk

namespace ChunkTable

/-- The chunks after a list of additions, from its head on. -/
def ofChunks (chunks : List Chunk) : ChunkTable := chunks.foldl add ∅

/-- The chunk with a number is the current one among those that were added. -/
theorem chunk?_ofChunks_eq_some_iff {chunks : List Chunk} {id : ChunkId} {chunk : Chunk} :
    (ofChunks chunks).chunk? id = some chunk ↔ chunk.id = id ∧ chunk.IsCurrent chunks := by
  induction chunks using List.reverseRecOn with
  | nil =>
    refine iff_of_false (Option.some_ne_none chunk).symm ?_
    rintro ⟨-, before, after, heq, -⟩
    exact absurd heq (List.append_ne_nil_of_right_ne_nil _ (List.cons_ne_nil _ _)).symm
  | append_singleton chunks last ih =>
    have hlast : (ofChunks (chunks ++ [last])).chunk? id =
        if last.id = id then some last else (ofChunks chunks).chunk? id := by
      rw [ofChunks, List.foldl_append]
      exact OrderedMap.find?_insert _ _ _ _
    rw [hlast, Chunk.isCurrent_append_singleton]
    split
    · rename_i hid
      constructor
      · intro h
        obtain rfl := Option.some.inj h
        exact ⟨hid, Or.inl rfl⟩
      · rintro ⟨hchunk, rfl | ⟨hne, -⟩⟩
        · rfl
        · exact absurd (hid.trans hchunk.symm) hne
    · rename_i hid
      rw [ih]
      refine and_congr_right fun hchunk => ?_
      have hother : chunk ≠ last := fun heq => hid (heq ▸ hchunk)
      have hnumber : last.id ≠ chunk.id := fun heq => hid (heq.trans hchunk)
      rw [or_iff_right hother, and_iff_right hnumber]

/-- The chunks that hold a module are the current ones that do. -/
theorem mem_containing_ofChunks_iff {chunks : List Chunk} {chunk : Chunk} {module : ModuleId} :
    chunk ∈ (ofChunks chunks).containing module ↔
      chunk.IsCurrent chunks ∧ module ∈ chunk.modules := by
  rw [containing, List.mem_filter, UniqueList.contains_iff]
  refine and_congr_left fun _ => ?_
  constructor
  · intro hvalue
    obtain ⟨id, hid⟩ := OrderedMap.exists_find?_of_mem_values hvalue
    exact (chunk?_ofChunks_eq_some_iff.mp hid).2
  · intro hcurrent
    exact OrderedMap.mem_values_of_find? (chunk?_ofChunks_eq_some_iff.mpr ⟨rfl, hcurrent⟩)

theorem entryCount_of_isCurrent {chunks : List Chunk} {chunk : Chunk}
    (h : chunk.IsCurrent chunks) :
    (ofChunks chunks).entryCount chunk.id = chunk.entries.size := by
  rw [entryCount, chunk?_ofChunks_eq_some_iff.mpr ⟨rfl, h⟩]

end ChunkTable

end ModuleLinker
