import ModuleLinker.Proofs.Histories
import ModuleLinker.Proofs.Interface.Taps
import ModuleLinker.Proofs.Linking

/-!
# When a wrapper is omitted

A module can do without its wrapper when no bailout tap objects, no other module imports
it, and every chunk that holds it has its own runtime and at most one entry.  The check
asks for one thing more: a module that imports itself keeps its wrapper too.  Linking
reports what the check says of the root, in the build that it leaves, and keeps the
wrapper of a root that was merged with nothing.
-/

namespace ModuleLinker

namespace BailoutTap

variable {module : ModuleId} {facts : BuildFacts} {taps : List BailoutTap}

/-- No reason is found exactly when no tap gives one. -/
theorem value_firstReason_eq_none_iff :
    (firstReason module facts taps).value = none ↔
      ∀ tap ∈ taps, (tap.reason module facts).value = none := by
  induction taps with
  | nil => simp [firstReason]
  | cons tap rest ih =>
    rw [firstReason, Journaled.value_bind, List.forall_mem_cons]
    cases (tap.reason module facts).value with
    | none => exact ih.trans (and_iff_right rfl).symm
    | some reason => simp

end BailoutTap

namespace Wrapper

/-- The reasons for a wrapper are absent: no bailout tap objects to omitting it, no other
module was ever recorded to import the module, and every chunk that is current and holds
the module has its own runtime and at most one entry. -/
structure Unneeded (edits : List ImportEdit) (chunks : List Chunk) (facts : BuildFacts)
    (taps : List BailoutTap) (module : ModuleId) : Prop where
  noReason : ∀ tap ∈ taps, (tap.reason module facts).value = none
  notImported : ∀ importer, importer ≠ module → .addImport importer module ∉ edits
  chunksAllow : ∀ chunk : Chunk, chunk.IsCurrent chunks →
    module ∈ chunk.modules ∨ module ∈ chunk.entries →
      chunk.hasRuntime = true ∧
        ∀ first ∈ chunk.entries, ∀ second ∈ chunk.entries, first = second

variable {edits : List ImportEdit} {chunks : List Chunk} {facts : BuildFacts}
  {taps : List BailoutTap} {module : ModuleId}

theorem isImported_eq_false_iff (module : ModuleId)
    (hgraph : facts.importGraph = .ofEdits edits) :
    facts.importGraph.isImported module = false ↔
      (∀ importer, importer ≠ module → .addImport importer module ∉ edits) ∧
        .addImport module module ∉ edits := by
  rw [← Bool.not_eq_true, ImportGraph.isImported_iff, not_exists, hgraph]
  simp only [ImportGraph.mem_imports_ofEdits_iff]
  constructor
  · exact fun h => ⟨fun importer _ => h importer, h module⟩
  · rintro ⟨hothers, hself⟩ importer
    by_cases heq : importer = module
    · rw [heq]
      exact hself
    · exact hothers importer heq

theorem all_chunkAllows_iff (module : ModuleId) (hchunks : facts.chunks = .ofChunks chunks)
    (hclosed : ∀ chunk ∈ chunks, chunk.Closed) :
    (facts.chunks.containing module).all (chunkAllows facts.chunks) = true ↔
      ∀ chunk : Chunk, chunk.IsCurrent chunks →
        module ∈ chunk.modules ∨ module ∈ chunk.entries →
          chunk.hasRuntime = true ∧
            ∀ first ∈ chunk.entries, ∀ second ∈ chunk.entries, first = second := by
  rw [List.all_eq_true, hchunks]
  refine forall_congr' fun chunk => ?_
  rw [ChunkTable.mem_containing_ofChunks_iff, and_imp]
  refine forall_congr' fun hcurrent => ?_
  have hmem : module ∈ chunk.modules ∨ module ∈ chunk.entries ↔ module ∈ chunk.modules :=
    or_iff_left_of_imp (hclosed chunk hcurrent.mem module)
  rw [hmem, chunkAllows, Bool.and_eq_true, decide_eq_true_eq,
    ChunkTable.entryCount_of_isCurrent hcurrent, UniqueList.size_le_one_iff]

/-- The check omits a wrapper exactly when there is no reason for it and the module does
not import itself. -/
theorem value_canOmit_iff (facts : BuildFacts) (hgraph : facts.importGraph = .ofEdits edits)
    (hchunks : facts.chunks = .ofChunks chunks) (hclosed : ∀ chunk ∈ chunks, chunk.Closed) :
    (canOmit module facts taps).value = true ↔
      Unneeded edits chunks facts taps module ∧ .addImport module module ∉ edits := by
  have himported := isImported_eq_false_iff module hgraph
  have hallow := all_chunkAllows_iff module hchunks hclosed
  rw [canOmit, Journaled.value_bind]
  cases hreason : (BailoutTap.firstReason module facts taps).value with
  | some reason =>
    refine iff_of_false Bool.false_ne_true ?_
    rintro ⟨hunneeded, -⟩
    rw [BailoutTap.value_firstReason_eq_none_iff.mpr hunneeded.noReason] at hreason
    exact absurd hreason.symm (Option.some_ne_none reason)
  | none =>
    have hnone := BailoutTap.value_firstReason_eq_none_iff.mp hreason
    rw [Journaled.value_pure, factsAllow, Bool.and_eq_true, Bool.not_eq_true', himported, hallow]
    constructor
    · rintro ⟨⟨hothers, hself⟩, hchunks⟩
      exact ⟨⟨hnone, hothers, hchunks⟩, hself⟩
    · rintro ⟨hunneeded, hself⟩
      exact ⟨⟨hunneeded.notImported, hself⟩, hunneeded.chunksAllow⟩

end Wrapper

namespace Build

variable {build : Build} {edits : List ImportEdit} {chunks : List Chunk}

/-- Whatever comes of linking, it changes nothing but facts about code. -/
theorem exists_build_link_eq (build : Build) (root : ModuleId) (members : List ModuleId) :
    ∃ code, (build.link root members).build = { build with code } := by
  have hlinks := linksTo_link build root members
  generalize build.link root members = outcome at hlinks
  cases hlinks with
  | refused _ => exact ⟨build.code, rfl⟩
  | alone _ _ _ _ => exact ⟨build.code, rfl⟩
  | merged _ _ _ _ _ => exact ⟨_, rfl⟩

/-- Linking reports what the wrapper check says of a root that was merged. -/
theorem wrapperOmittable_of_link {root : ModuleId} {members : List ModuleId}
    {linked : LinkedLibrary} (htaps : build.extensions.definitionsTaps = [Wrapper.tap])
    (hlink : (build.link root members).result = .ok linked) :
    linked.wrapperOmittable = true ↔ members ≠ [] ∧
      (Wrapper.canOmit root (build.link root members).build.toBuildFacts
        build.extensions.bailoutTaps).value = true := by
  have hlinks := linksTo_link build root members
  generalize build.link root members = outcome at hlinks hlink
  cases hlinks with
  | refused _ => exact absurd hlink (by simp)
  | alone _ _ hmembers hplan =>
    rw [← Except.ok.inj hlink]
    refine iff_of_false ?_ fun h => h.1 hmembers
    rw [Interface.wrapperOmittable_of_plan_none hplan]
    exact Bool.false_ne_true
  | merged _ _ hmembers _ hplan =>
    rw [← Except.ok.inj hlink, linkedFrom,
      Interface.wrapperOmittable_of_plan_some _ (by exact htaps) hplan]
    exact (and_iff_right hmembers).symm

/-- When the wrapper of a module is omitted, for any history of the import graph and of
the chunks and any bailout taps: exactly when there is no reason for it and the module
does not import itself.  With the wrapper check as the only definitions tap, linking
reports that of the root in the build that it leaves, and never for a root alone. -/
theorem wrapper_omitted_iff (hgraph : build.importGraph = .ofEdits edits)
    (hchunks : build.chunks = .ofChunks chunks) (hclosed : ∀ chunk ∈ chunks, chunk.Closed) :
    (∀ module, (Wrapper.canOmit module build.toBuildFacts build.extensions.bailoutTaps).value =
        true ↔
      Wrapper.Unneeded edits chunks build.toBuildFacts build.extensions.bailoutTaps module ∧
        .addImport module module ∉ edits) ∧
    (build.extensions.definitionsTaps = [Wrapper.tap] → ∀ root members linked,
      (build.link root members).result = .ok linked →
        (linked.wrapperOmittable = true ↔ members ≠ [] ∧
          Wrapper.Unneeded edits chunks (build.link root members).build.toBuildFacts
            build.extensions.bailoutTaps root ∧
          .addImport root root ∉ edits)) := by
  refine ⟨fun _ => Wrapper.value_canOmit_iff _ hgraph hchunks hclosed, ?_⟩
  intro htaps root members linked hlink
  obtain ⟨code, hcode⟩ := exists_build_link_eq build root members
  rw [wrapperOmittable_of_link htaps hlink, hcode]
  exact and_congr_right fun _ =>
    Wrapper.value_canOmit_iff { build.toBuildFacts with code } hgraph hchunks hclosed

/-- A build with the standard extensions, one module, and the given histories. -/
def historyBuild (edits : List ImportEdit) (chunks : List Chunk) : Build :=
  { withStandardExtensions default with
    registry := (∅ : ExportRegistry).register ⟨0⟩ "./index.js"
    importGraph := .ofEdits edits
    chunks := .ofChunks chunks }

/-- The first chunk has no runtime, but the second takes its place: the root, which
imports another module of the chunk, loses its wrapper. -/
theorem wrapper_omitted_iff_replaced :
    let edits : List ImportEdit := [.addImport ⟨0⟩ ⟨1⟩]
    let chunks := [Chunk.ofModules ⟨0⟩ none false [⟨0⟩] [],
      Chunk.ofModules ⟨0⟩ (some "main") true [⟨1⟩] [⟨0⟩]]
    ∃ linked, ((historyBuild edits chunks).link ⟨0⟩ [⟨0⟩]).result = .ok linked ∧
      linked.wrapperOmittable = true ∧
      Wrapper.Unneeded edits chunks ((historyBuild edits chunks).link ⟨0⟩ [⟨0⟩]).build.toBuildFacts
        [] ⟨0⟩ ∧
      ¬ Wrapper.Unneeded edits chunks (historyBuild edits chunks).toBuildFacts [] ⟨1⟩ := by
  intro edits chunks
  obtain ⟨linked, hlink, homitted⟩ := exists_eq_ok_of_map_toOption
    ((historyBuild edits chunks).link ⟨0⟩ [⟨0⟩]).result LinkedLibrary.wrapperOmittable
    (y := true) (by decide)
  have hclosed : ∀ chunk ∈ chunks, chunk.Closed := by
    intro chunk hchunk
    rcases List.mem_pair.mp hchunk with rfl | rfl
    · exact Chunk.closed_ofModules _ _ _ _ _
    · exact Chunk.closed_ofModules _ _ _ _ _
  have hgraph : (historyBuild edits chunks).importGraph = .ofEdits edits := rfl
  obtain ⟨hcheck, hreports⟩ := wrapper_omitted_iff hgraph rfl hclosed
  obtain ⟨-, hunneeded, -⟩ := (hreports rfl ⟨0⟩ [⟨0⟩] linked hlink).mp homitted
  refine ⟨linked, hlink, homitted, hunneeded, fun hunneeded => ?_⟩
  have hkept := (hcheck ⟨1⟩).mpr ⟨hunneeded, by decide⟩
  exact absurd hkept (by decide)

/-- A wrapper is not always omitted when there is no reason for it: a module that imports
itself keeps it, though no other module imports it. -/
theorem self_import_keeps_wrapper :
    let edits : List ImportEdit := [.addImport ⟨0⟩ ⟨0⟩]
    Wrapper.Unneeded edits [] (historyBuild edits []).toBuildFacts [] ⟨0⟩ ∧
      (Wrapper.canOmit ⟨0⟩ (historyBuild edits []).toBuildFacts []).value = false ∧
      ∃ linked, ((historyBuild edits []).link ⟨0⟩ [⟨0⟩]).result = .ok linked ∧
        linked.wrapperOmittable = false := by
  intro edits
  refine ⟨⟨fun _ h => absurd h List.not_mem_nil, ?_, ?_⟩, by decide,
    exists_eq_ok_of_map_toOption ((historyBuild edits []).link ⟨0⟩ [⟨0⟩]).result
      LinkedLibrary.wrapperOmittable (y := false) (by decide)⟩
  · intro importer hother hmem
    exact hother (ImportEdit.addImport.inj (List.mem_singleton.mp hmem)).1
  · intro chunk hcurrent
    exact absurd hcurrent.mem List.not_mem_nil

end Build

end ModuleLinker
