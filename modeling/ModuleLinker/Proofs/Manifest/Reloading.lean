import ModuleLinker.Proofs.Concatenation.Building
import ModuleLinker.Proofs.Exports.Replaying
import ModuleLinker.Proofs.Manifest.Loading

/-!
# Loading a manifest twice

Loading a manifest is a list of edits of the registry, of the import graph, of the facts about
code and of the chunks.  Whatever the manifest repeats and whatever the build held before, no
edit fails, since all modules are registered first.  Loading the same manifest once more makes
the same edits again.  The facts that the manifest repeats under one number pass through
earlier blocks once more, but the last block decides as it did before, so the build is the
same in the end.
-/

namespace ModuleLinker

/-! ## The import graph and the chunks -/

namespace ImportGraph

theorem foldl_apply_foldl_apply (g : ImportGraph) (edits : List ImportEdit) :
    edits.foldl apply (edits.foldl apply g) = edits.foldl apply g := by
  simp only [foldl_apply_eq, UniqueList.insertAll_insertAll]

end ImportGraph

namespace ChunkTable

theorem chunks_foldl_add (table : ChunkTable) (chunks : List Chunk) :
    (chunks.foldl add table).chunks =
      chunks.foldl (OrderedMap.write Chunk.id fun chunk _ => chunk) table.chunks := by
  induction chunks generalizing table with
  | nil => rfl
  | cons chunk rest ih => exact ih (table.add chunk)

/-- Chunks that replace each other end up as they did before. -/
theorem foldl_add_foldl_add (table : ChunkTable) (chunks : List Chunk) :
    chunks.foldl add (chunks.foldl add table) = chunks.foldl add table := by
  apply congrArg ChunkTable.mk
  rw [chunks_foldl_add, chunks_foldl_add]
  apply OrderedMap.foldl_write_foldl_write
  intro id start
  exact OrderedMap.written_written_of_forgetful (fun _ _ _ => rfl) id chunks start

end ChunkTable

/-! ## Facts about code -/

namespace ModuleManifest

/-- The facts about code after those about a module were merged into them. -/
def editCode (runtime : Runtime) (table : CodeTable) (facts : ModuleManifest) : CodeTable :=
  table.edit facts.id runtime facts.mergeCode

/-- Declarations of all blocks add up, and the last block decides the rest. -/
theorem foldl_mergeCode_eq (blocks : List ModuleManifest) (code : ModuleCode) :
    blocks.foldl (fun code facts => facts.mergeCode code) code =
      { declarations := code.declarations.insertAll (blocks.flatMap declarations)
        backing := (blocks.map backing).getLastD code.backing
        definitions := (blocks.map definitions).getLastD code.definitions
        imports := (blocks.map imports).getLastD code.imports } := by
  induction blocks generalizing code with
  | nil => rfl
  | cons facts rest ih =>
    rw [List.foldl_cons, ih]
    simp only [List.flatMap_cons, UniqueList.insertAll_append, List.map_cons, List.getLastD_cons]
    rfl

theorem foldl_mergeCode_foldl_mergeCode (blocks : List ModuleManifest) (code : ModuleCode) :
    blocks.foldl (fun code facts => facts.mergeCode code)
        (blocks.foldl (fun code facts => facts.mergeCode code) code) =
      blocks.foldl (fun code facts => facts.mergeCode code) code := by
  simp only [foldl_mergeCode_eq, UniqueList.insertAll_insertAll, getLastD_getLastD]

theorem facts_foldl_editCode (runtime : Runtime) (table : CodeTable)
    (blocks : List ModuleManifest) : (blocks.foldl (editCode runtime) table).facts =
      blocks.foldl (OrderedMap.write (fun facts => (facts.id, runtime))
        fun facts code => facts.mergeCode (code.getD ∅)) table.facts := by
  induction blocks generalizing table with
  | nil => rfl
  | cons facts rest ih => exact ih (editCode runtime table facts)

theorem foldl_editCode_foldl_editCode (runtime : Runtime) (table : CodeTable)
    (blocks : List ModuleManifest) :
    blocks.foldl (editCode runtime) (blocks.foldl (editCode runtime) table) =
      blocks.foldl (editCode runtime) table := by
  apply congrArg CodeTable.mk
  rw [facts_foldl_editCode, facts_foldl_editCode]
  apply OrderedMap.foldl_write_foldl_write
  intro key start
  exact OrderedMap.written_written_of_default ∅ (fun _ _ => rfl)
    foldl_mergeCode_foldl_mergeCode key blocks start

/-! ## Loading as a list of edits -/

/-- The edit that registers a module. -/
def registration (facts : ModuleManifest) : ExportEdit := .register facts.id facts.name

/-- The edits of the registry that the facts about a registered module call for. -/
def exportEdits (facts : ModuleManifest) : List ExportEdit :=
  .setOthers facts.id facts.others :: facts.exports.map (.addExport facts.id)

/-- The facts about a module call for edits of that module only. -/
theorem module_of_mem_exportEdits {facts : ModuleManifest} {edit : ExportEdit}
    (h : edit ∈ facts.exportEdits) : edit.module = facts.id := by
  rcases List.mem_cons.mp h with rfl | h
  · rfl
  · obtain ⟨e, -, rfl⟩ := List.mem_map.mp h
    rfl

theorem addExports_eq_foldlM (module : ModuleId) (exports : List Export)
    (registry : ExportRegistry) : addExports module exports registry =
      (exports.map (.addExport module)).foldlM ExportRegistry.attempt registry := by
  induction exports generalizing registry with
  | nil => rfl
  | cons e rest ih =>
    rw [addExports, List.map_cons, List.foldlM_cons, ExportRegistry.attempt]
    cases registry.addExport module e with
    | error reason => rfl
    | ok after => exact ih after

/-- Loading the facts about a module makes their edits. -/
theorem load_eq_ok {facts : ModuleManifest} {build : Build} {registry : ExportRegistry}
    (h : facts.exportEdits.foldlM ExportRegistry.attempt build.registry = .ok registry) :
    facts.load build = .ok { build with
      registry
      importGraph := facts.importEdits.foldl ImportGraph.apply build.importGraph
      code := editCode build.runtime build.code facts } := by
  rw [exportEdits, List.foldlM_cons, ExportRegistry.attempt] at h
  rw [load, ← graphAfter_eq]
  cases hothers : build.registry.setOthers facts.id facts.others with
  | error reason =>
    rw [hothers] at h
    exact absurd h (by simp [bind, Except.bind])
  | ok others =>
    rw [hothers] at h
    have hexports : addExports facts.id facts.exports others = .ok registry :=
      (addExports_eq_foldlM _ _ _).trans h
    simp only [bind, Except.bind, hexports]
    rfl

end ModuleManifest

namespace Manifest

/-- The edits of the registry that a manifest calls for: all modules are registered before
anything else is said of them. -/
def exportEdits (manifest : Manifest) : List ExportEdit :=
  manifest.modules.map ModuleManifest.registration ++
    manifest.modules.flatMap ModuleManifest.exportEdits

/-- The edits of the import graph that a manifest calls for. -/
def importEdits (manifest : Manifest) : List ImportEdit :=
  manifest.modules.map (fun facts => .add facts.id) ++
    manifest.modules.flatMap ModuleManifest.importEdits

/-- The second build is what the edits that a manifest calls for make of the first one, and
none of them fails. -/
structure Replays (manifest : Manifest) (before after : Build) : Prop where
  frame : after = { before with
    registry := after.registry
    importGraph := after.importGraph
    code := after.code
    chunks := after.chunks }
  registry_eq :
    manifest.exportEdits.foldlM ExportRegistry.attempt before.registry = .ok after.registry
  importGraph_eq :
    after.importGraph = manifest.importEdits.foldl ImportGraph.apply before.importGraph
  code_eq : after.code = manifest.modules.foldl (ModuleManifest.editCode before.runtime) before.code
  chunks_eq :
    after.chunks = (manifest.chunks.map ChunkManifest.chunk).foldl ChunkTable.add before.chunks

theorem foldl_registerModule_eq_edits (modules : List ModuleManifest) (build : Build) :
    modules.foldl registerModule build = { build with
      registry := (modules.map ModuleManifest.registration).foldl ExportRegistry.amend
        build.registry
      importGraph := (modules.map fun facts => ImportEdit.add facts.id).foldl ImportGraph.apply
        build.importGraph } := by
  induction modules generalizing build with
  | nil => rfl
  | cons facts rest ih =>
    have hregistry : build.registry.register facts.id facts.name =
        build.registry.amend facts.registration :=
      Except.ok.inj (build.registry.attempt_register facts.id facts.name)
    rw [List.foldl_cons, ih, registerModule, hregistry]
    rfl

theorem loadModules_eq_ok {modules : List ModuleManifest} {build : Build}
    {registry : ExportRegistry}
    (h : (modules.flatMap ModuleManifest.exportEdits).foldlM ExportRegistry.attempt build.registry =
      .ok registry) :
    loadModules modules build = .ok { build with
      registry
      importGraph := (modules.flatMap ModuleManifest.importEdits).foldl ImportGraph.apply
        build.importGraph
      code := modules.foldl (ModuleManifest.editCode build.runtime) build.code } := by
  induction modules generalizing build with
  | nil =>
    obtain rfl := Except.ok.inj h
    rfl
  | cons facts rest ih =>
    rw [List.flatMap_cons, List.foldlM_append] at h
    cases hfirst : facts.exportEdits.foldlM ExportRegistry.attempt build.registry with
    | error reason =>
      rw [hfirst] at h
      exact absurd h (by simp [bind, Except.bind])
    | ok middle =>
      rw [hfirst] at h
      rw [loadModules, ModuleManifest.load_eq_ok hfirst, List.flatMap_cons, List.foldl_append]
      exact ih h

theorem foldlM_attempt_registrations (modules : List ModuleManifest) (registry : ExportRegistry) :
    (modules.map ModuleManifest.registration).foldlM ExportRegistry.attempt registry =
      .ok ((modules.map ModuleManifest.registration).foldl ExportRegistry.amend registry) := by
  induction modules generalizing registry with
  | nil => rfl
  | cons facts rest ih =>
    rw [List.map_cons, List.foldlM_cons, ModuleManifest.registration,
      ExportRegistry.attempt_register]
    exact ih _

namespace Replays

variable {manifest : Manifest} {before after : Build}

/-- Loading a manifest makes its edits. -/
theorem load_eq_ok (h : manifest.Replays before after) : manifest.load before = .ok after := by
  have hregistered := foldl_registerModule_eq_edits manifest.modules before
  have hregistry := h.registry_eq
  have hgraph := h.importGraph_eq
  rw [exportEdits, List.foldlM_append, foldlM_attempt_registrations] at hregistry
  rw [importEdits, List.foldl_append] at hgraph
  have hmodules : (manifest.modules.flatMap ModuleManifest.exportEdits).foldlM
      ExportRegistry.attempt (manifest.modules.foldl registerModule before).registry =
        .ok after.registry := by
    rw [hregistered]
    exact hregistry
  rw [load, loadModules_eq_ok hmodules, hregistered, ← hgraph]
  have hloaded : manifest.chunks.foldl addChunk { before with
      registry := after.registry
      importGraph := after.importGraph
      code := manifest.modules.foldl (ModuleManifest.editCode before.runtime) before.code } =
        after := by
    rw [foldl_addChunk_eq, ← h.chunks_eq, ← h.code_eq]
    exact h.frame.symm
  exact congrArg Except.ok hloaded

end Replays

/-- No edit of a manifest fails, because all of them are about registered modules. -/
theorem exists_replays (manifest : Manifest) (build : Build) :
    ∃ after, manifest.Replays build after := by
  let registered := (manifest.modules.map ModuleManifest.registration).foldl ExportRegistry.amend
    build.registry
  have hknown : ∀ edit ∈ manifest.modules.flatMap ModuleManifest.exportEdits,
      edit.module ∈ registered.tables.keys := by
    intro edit hedit
    obtain ⟨facts, hfacts, hedit⟩ := List.mem_flatMap.mp hedit
    have hmodule : edit.module = facts.id := ModuleManifest.module_of_mem_exportEdits hedit
    apply ExportRegistry.mem_keys_foldl_amend.mpr
    right
    rw [hmodule, List.map_map]
    exact List.mem_map_of_mem (f := ExportEdit.module ∘ ModuleManifest.registration) hfacts
  have hregistry : manifest.exportEdits.foldlM ExportRegistry.attempt build.registry =
      .ok (manifest.exportEdits.foldl ExportRegistry.amend build.registry) := by
    rw [exportEdits, List.foldlM_append, foldlM_attempt_registrations, List.foldl_append]
    exact ExportRegistry.foldlM_attempt_of_forall_mem hknown
  exact ⟨{ build with
    registry := manifest.exportEdits.foldl ExportRegistry.amend build.registry
    importGraph := manifest.importEdits.foldl ImportGraph.apply build.importGraph
    code := manifest.modules.foldl (ModuleManifest.editCode build.runtime) build.code
    chunks := (manifest.chunks.map ChunkManifest.chunk).foldl ChunkTable.add build.chunks },
    rfl, hregistry, rfl, rfl, rfl⟩

/-- A build that a manifest was loaded into stays as it is when the edits are made again. -/
theorem Replays.again {manifest : Manifest} {before after : Build}
    (h : manifest.Replays before after) : manifest.Replays after after := by
  have hruntime : after.runtime = before.runtime := by
    rw [h.frame]
    rfl
  exact {
    frame := rfl
    registry_eq := ExportRegistry.foldlM_attempt_again h.registry_eq
    importGraph_eq := by
      rw [h.importGraph_eq, ImportGraph.foldl_apply_foldl_apply]
    code_eq := by
      rw [hruntime, h.code_eq, ModuleManifest.foldl_editCode_foldl_editCode]
    chunks_eq := by
      rw [h.chunks_eq, ChunkTable.foldl_add_foldl_add] }

/-- Loading a manifest into a build never fails.  It makes the edits that the manifest calls
for, and loading the manifest again changes nothing. -/
theorem load_settles (manifest : Manifest) (build : Build) :
    ∃ after, manifest.load build = .ok after ∧ manifest.Replays build after ∧
      manifest.load after = .ok after := by
  obtain ⟨after, hafter⟩ := exists_replays manifest build
  exact ⟨after, hafter.load_eq_ok, hafter, hafter.again.load_eq_ok⟩

/-- A block for a module, in which an export forwards to itself. -/
def earlierBlock : ModuleManifest where
  id := ⟨0⟩
  name := "./earlier.js"
  isAsynchronous := true
  dependencies := [⟨7⟩]
  others := .unknown
  exports := [⟨"x", .provided, ∅, some ⟨⟨0⟩, some "x"⟩, none⟩, ⟨"y", .provided, ∅, none, none⟩]
  declarations := ["a", "b"]
  backing := .ofList [("y", "a")]
  definitions := none
  imports := []

/-- Another block for the same module, in which that export forwards to a module without any
block. -/
def laterBlock : ModuleManifest where
  id := ⟨0⟩
  name := "./later.js"
  isAsynchronous := false
  dependencies := [⟨7⟩, ⟨0⟩]
  others := .notProvided
  exports := [⟨"z", .provided, ∅, none, none⟩, ⟨"x", .provided, ∅, some ⟨⟨7⟩, some "w"⟩, none⟩]
  declarations := ["c", "a"]
  backing := ∅
  definitions := none
  imports := [⟨"ext", [⟨"default", "d"⟩]⟩]

/-- Of two blocks for one module the later one replaces the name, the export of both, and the
backing, while exports and declarations of the earlier one stay in front.  The circle that the
earlier block closes is gone after either run. -/
theorem load_settles_repeated :
    let manifest : Manifest :=
      ⟨⟨0⟩, [⟨5⟩], [earlierBlock, laterBlock], [⟨⟨1⟩, some "a", true, [⟨3⟩], []⟩,
        ⟨⟨2⟩, none, false, [], [⟨0⟩]⟩, ⟨⟨1⟩, some "b", false, [], [⟨4⟩]⟩]⟩
    ∃ after, manifest.load (.empty default) = .ok after ∧
      (after.registry.table? ⟨0⟩).map (fun table => (table.moduleName, table.exports.keys)) =
        some ("./later.js", ["x", "y", "z"]) ∧
      after.registry.resolve ⟨⟨0⟩, "x"⟩ = .origin ⟨⟨7⟩, "w"⟩ ∧ after.registry.cycles = [] ∧
      (after.codeOf ⟨0⟩).declarations.toList = ["a", "b", "c"] ∧
      (after.codeOf ⟨0⟩).backing.keys = [] ∧
      after.chunks.chunks.values.map Chunk.name = [some "b", none] ∧
      manifest.load after = .ok after := by
  intro manifest
  obtain ⟨after, hload, -, hagain⟩ := load_settles manifest (.empty default)
  obtain ⟨exporting, hexporting, hexports⟩ := exists_eq_ok_of_map_toOption
    (manifest.load (.empty default))
    (fun build =>
      ((build.registry.table? ⟨0⟩).map fun table => (table.moduleName, table.exports.keys),
        build.registry.resolve ⟨⟨0⟩, "x"⟩, build.registry.cycles))
    (y := (some ("./later.js", ["x", "y", "z"]), .origin ⟨⟨7⟩, "w"⟩, [])) (by decide +kernel)
  obtain ⟨coding, hcoding, hcode⟩ := exists_eq_ok_of_map_toOption
    (manifest.load (.empty default))
    (fun build => ((build.codeOf ⟨0⟩).declarations.toList, (build.codeOf ⟨0⟩).backing.keys,
      build.chunks.chunks.values.map Chunk.name))
    (y := (["a", "b", "c"], [], [some "b", none])) (by decide +kernel)
  obtain rfl := Except.ok.inj (hload.symm.trans hexporting)
  obtain rfl := Except.ok.inj (hload.symm.trans hcoding)
  simp only [Prod.mk.injEq] at hexports hcode
  obtain ⟨htable, hresolve, hcycles⟩ := hexports
  obtain ⟨hdeclarations, hbacking, hchunks⟩ := hcode
  exact ⟨after, hload, htable, hresolve, hcycles, hdeclarations, hbacking, hchunks, hagain⟩

end Manifest

end ModuleLinker
