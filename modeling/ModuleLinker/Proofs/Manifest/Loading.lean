import ModuleLinker.Manifest
import ModuleLinker.Proofs.Exports.Registry
import ModuleLinker.Proofs.Histories
import ModuleLinker.Proofs.Linking.Publishing

/-!
# What loading a manifest leaves

Loading a manifest whose modules are distinct never fails.  It leaves one table and one
entry of code facts for every module of the manifest, and the imports between modules that
any of them lists.  So what is looked up afterwards does not depend on the order in which
the manifest lists its modules.
-/

namespace ModuleLinker

namespace ModuleManifest

/-- The facts about a module without its dependencies. -/
def core (manifest : ModuleManifest) : ModuleManifest := { manifest with dependencies := [] }

@[simp] theorem id_core (manifest : ModuleManifest) : manifest.core.id = manifest.id := rfl

@[simp] theorem isAsynchronous_core (manifest : ModuleManifest) :
    manifest.core.isAsynchronous = manifest.isAsynchronous := rfl

/-- The table that loading makes of the facts about a module. -/
def table (manifest : ModuleManifest) : ExportTable :=
  manifest.exports.foldl ExportTable.put { ExportTable.named manifest.name with
    others := manifest.others }

/-- The import graph after a module was loaded. -/
def graphAfter (manifest : ModuleManifest) (graph : ImportGraph) : ImportGraph :=
  let linked :=
    manifest.dependencies.foldl (fun graph dependency => graph.addImport manifest.id dependency)
      graph
  if manifest.isAsynchronous then linked.setAsynchronous manifest.id else linked

/-- The edits of the import graph that the facts about a module call for. -/
def importEdits (manifest : ModuleManifest) : List ImportEdit :=
  manifest.dependencies.map (.addImport manifest.id) ++
    if manifest.isAsynchronous then [.setAsynchronous manifest.id] else []

theorem graphAfter_eq (manifest : ModuleManifest) (graph : ImportGraph) :
    manifest.graphAfter graph = manifest.importEdits.foldl ImportGraph.apply graph := by
  rw [graphAfter, importEdits, List.foldl_append, List.foldl_map]
  split_ifs
  · rfl
  · rfl

theorem mem_imports_graphAfter_iff {manifest : ModuleManifest} {graph : ImportGraph}
    {importer imported : ModuleId} :
    (importer, imported) ∈ (manifest.graphAfter graph).imports ↔
      (importer, imported) ∈ graph.imports ∨
        manifest.id = importer ∧ imported ∈ manifest.dependencies := by
  rw [graphAfter_eq, ImportGraph.mem_imports_foldl_apply_iff]
  apply or_congr_right
  rw [importEdits]
  split_ifs
  · simp [and_comm]
  · simp [and_comm]

theorem mem_asynchronous_graphAfter_iff {manifest : ModuleManifest} {graph : ImportGraph}
    {module : ModuleId} :
    module ∈ (manifest.graphAfter graph).asynchronous ↔
      module ∈ graph.asynchronous ∨ manifest.isAsynchronous = true ∧ manifest.id = module := by
  rw [graphAfter_eq, ImportGraph.mem_asynchronous_foldl_apply_iff]
  apply or_congr_right
  rw [importEdits]
  split_ifs with hasynchronous
  · simp [hasynchronous, eq_comm]
  · simp [hasynchronous]

/-- Adding exports to a registered module succeeds, and changes its table and nothing
else. -/
theorem exists_addExports_eq_ok {registry : ExportRegistry} {module : ModuleId}
    {table : ExportTable} (htable : registry.table? module = some table)
    (exports : List Export) :
    ∃ after, addExports module exports registry = .ok after ∧
      (∀ other, after.table? other =
        if module = other then some (exports.foldl ExportTable.put table)
        else registry.table? other) ∧
      (registry.InStep → after.InStep) := by
  induction exports generalizing registry table with
  | nil =>
    refine ⟨registry, rfl, fun other => ?_, fun h => h⟩
    split_ifs with heq
    · exact heq ▸ htable
    · rfl
  | cons e rest ih =>
    obtain ⟨added, hadd⟩ : ∃ added, registry.addExport module e = .ok added := by
      rw [ExportRegistry.addExport, htable]
      exact ⟨_, rfl⟩
    have htables := ExportRegistry.table?_addExport htable hadd
    obtain ⟨after, hafter, hrest, hstep⟩ := ih ((htables module).trans (if_pos rfl))
    refine ⟨after, ?_, fun other => ?_, fun h => hstep (h.addExport hadd)⟩
    · rw [addExports, hadd]
      exact hafter
    · rw [hrest, htables, List.foldl_cons]
      split_ifs
      · rfl
      · rfl

/-- What loading a module does to a build. -/
structure Loads (manifest : ModuleManifest) (before after : Build) : Prop where
  frame : after = { before with
    registry := after.registry
    importGraph := manifest.graphAfter before.importGraph
    code := before.code.edit manifest.id before.runtime manifest.mergeCode }
  table?_eq : ∀ module, after.registry.table? module =
    if manifest.id = module then some manifest.table else before.registry.table? module
  inStep : before.registry.InStep → after.registry.InStep

/-- Loading a module that was registered under its name, and nothing else, succeeds. -/
theorem exists_load_eq_ok {manifest : ModuleManifest} {build : Build}
    (htable : build.registry.table? manifest.id = some (.named manifest.name)) :
    ∃ after, manifest.load build = .ok after ∧ manifest.Loads build after := by
  obtain ⟨others, hothers⟩ :
      ∃ others, build.registry.setOthers manifest.id manifest.others = .ok others := by
    rw [ExportRegistry.setOthers, htable]
    exact ⟨_, rfl⟩
  have htables := ExportRegistry.table?_setOthers htable hothers
  obtain ⟨registry, hregistry, hexports, hstep⟩ :=
    exists_addExports_eq_ok ((htables manifest.id).trans (if_pos rfl)) manifest.exports
  refine ⟨{ build with
    registry
    importGraph := manifest.graphAfter build.importGraph
    code := build.code.edit manifest.id build.runtime manifest.mergeCode }, ?_, rfl,
    fun module => ?_, fun h => hstep (h.setOthers hothers)⟩
  · rw [load, hothers]
    dsimp only [bind, Except.bind]
    rw [hregistry]
    rfl
  · refine (hexports module).trans ?_
    rw [htables]
    split_ifs
    · rfl
    · rfl

end ModuleManifest

namespace Manifest

/-- The facts about a module in a list, without its dependencies. -/
def factsOf? (modules : List ModuleManifest) (module : ModuleId) : Option ModuleManifest :=
  (modules.find? fun manifest => decide (manifest.id = module)).map ModuleManifest.core

theorem factsOf?_cons (manifest : ModuleManifest) (rest : List ModuleManifest)
    (module : ModuleId) :
    factsOf? (manifest :: rest) module =
      if manifest.id = module then some manifest.core else factsOf? rest module := by
  rw [factsOf?, List.find?_cons]
  split_ifs with heq
  · rw [decide_eq_true heq]
    rfl
  · rw [decide_eq_false heq]
    rfl

theorem factsOf?_eq_none {modules : List ModuleManifest} {module : ModuleId}
    (h : module ∉ modules.map ModuleManifest.id) : factsOf? modules module = none := by
  rw [factsOf?, Option.map_eq_none_iff, List.find?_eq_none]
  intro manifest hmanifest heq
  exact h (of_decide_eq_true heq ▸ List.mem_map_of_mem hmanifest)

theorem factsOf?_eq_some {modules : List ModuleManifest} {manifest : ModuleManifest}
    (hnodup : (modules.map ModuleManifest.id).Nodup) (h : manifest ∈ modules) :
    factsOf? modules manifest.id = some manifest.core := by
  induction modules with
  | nil => exact absurd h List.not_mem_nil
  | cons first rest ih =>
    rw [List.map_cons, List.nodup_cons] at hnodup
    rw [factsOf?_cons]
    rcases List.mem_cons.mp h with rfl | h
    · rw [if_pos rfl]
    · have hother : first.id ≠ manifest.id := fun heq =>
        hnodup.1 (heq ▸ List.mem_map_of_mem h)
      rw [if_neg hother, ih hnodup.2 h]

/-- The facts about a module are those that are listed, if modules are distinct. -/
theorem factsOf?_eq_some_iff {modules : List ModuleManifest}
    (hnodup : (modules.map ModuleManifest.id).Nodup) {module : ModuleId}
    {facts : ModuleManifest} :
    factsOf? modules module = some facts ↔
      ∃ manifest ∈ modules, manifest.id = module ∧ manifest.core = facts := by
  constructor
  · intro h
    obtain ⟨manifest, hfound, hcore⟩ := Option.map_eq_some_iff.mp h
    exact ⟨manifest, List.mem_of_find?_eq_some hfound, by simpa using List.find?_some hfound,
      hcore⟩
  · rintro ⟨manifest, hmem, rfl, rfl⟩
    exact factsOf?_eq_some hnodup hmem

/-! ## Registration -/

/-- Registering modules changes the registry and makes modules known, and nothing else. -/
theorem foldl_registerModule_eq (modules : List ModuleManifest) (build : Build) :
    ∃ known, modules.foldl registerModule build = { build with
      registry := (modules.foldl registerModule build).registry
      importGraph := { build.importGraph with modules := known } } := by
  induction modules generalizing build with
  | nil => exact ⟨build.importGraph.modules, rfl⟩
  | cons manifest rest ih =>
    obtain ⟨known, heq⟩ := ih (registerModule build manifest)
    exact ⟨known, heq⟩

theorem inStep_foldl_registerModule (modules : List ModuleManifest) {build : Build}
    (h : build.registry.InStep) : (modules.foldl registerModule build).registry.InStep := by
  induction modules generalizing build with
  | nil => exact h
  | cons manifest rest ih => exact ih (h.register manifest.id manifest.name)

/-- Registering distinct new modules gives each an empty table under its name. -/
theorem table?_foldl_registerModule {modules : List ModuleManifest}
    (hnodup : (modules.map ModuleManifest.id).Nodup) (build : Build)
    (hnew : ∀ manifest ∈ modules, build.registry.table? manifest.id = none)
    (module : ModuleId) :
    (modules.foldl registerModule build).registry.table? module =
      (factsOf? modules module).elim (build.registry.table? module) fun manifest =>
        some (.named manifest.name) := by
  induction modules generalizing build with
  | nil => rfl
  | cons manifest rest ih =>
    rw [List.map_cons, List.nodup_cons] at hnodup
    rw [List.forall_mem_cons] at hnew
    have htables (other : ModuleId) : (registerModule build manifest).registry.table? other =
        if manifest.id = other then some (.named manifest.name)
        else build.registry.table? other := by
      refine (ExportRegistry.table?_register _ _ _ _).trans ?_
      rw [hnew.1]
      rfl
    have hrest : ∀ later ∈ rest, (registerModule build manifest).registry.table? later.id =
        none := by
      intro later hlater
      have hother : manifest.id ≠ later.id := fun heq =>
        hnodup.1 (heq ▸ List.mem_map_of_mem hlater)
      rw [htables, if_neg hother, hnew.2 later hlater]
    rw [List.foldl_cons, ih hnodup.2 _ hrest, htables, factsOf?_cons]
    split_ifs with heq
    · rw [factsOf?_eq_none (heq ▸ hnodup.1)]
      rfl
    · rfl

/-! ## Loading -/

/-- What loading a list of modules does to a build. -/
structure Loads (modules : List ModuleManifest) (before after : Build) : Prop where
  frame : after = { before with
    registry := after.registry
    importGraph := after.importGraph
    code := after.code }
  inStep : before.registry.InStep → after.registry.InStep
  table?_eq : ∀ module, after.registry.table? module =
    (factsOf? modules module).elim (before.registry.table? module) fun manifest =>
      some manifest.table
  get_code : ∀ module, after.code.get module before.runtime =
    (factsOf? modules module).elim (before.code.get module before.runtime) fun manifest =>
      manifest.mergeCode (before.code.get module before.runtime)
  mem_imports_iff : ∀ importer imported, (importer, imported) ∈ after.importGraph.imports ↔
    (importer, imported) ∈ before.importGraph.imports ∨
      ∃ manifest ∈ modules, manifest.id = importer ∧ imported ∈ manifest.dependencies
  mem_asynchronous_iff : ∀ module, module ∈ after.importGraph.asynchronous ↔
    module ∈ before.importGraph.asynchronous ∨
      ∃ manifest ∈ modules, manifest.isAsynchronous = true ∧ manifest.id = module

theorem Loads.nil (build : Build) : Loads [] build build where
  frame := rfl
  inStep h := h
  table?_eq _ := rfl
  get_code _ := rfl
  mem_imports_iff := by simp
  mem_asynchronous_iff := by simp

/-- Loading one more module in front of distinct others. -/
theorem Loads.cons {manifest : ModuleManifest} {rest : List ModuleManifest}
    {before middle after : Build} (hnew : manifest.id ∉ rest.map ModuleManifest.id)
    (hfirst : manifest.Loads before middle) (hrest : Loads rest middle after) :
    Loads (manifest :: rest) before after where
  frame := by
    rw [hrest.frame, hfirst.frame]
  inStep h := hrest.inStep (hfirst.inStep h)
  table?_eq module := by
    rw [hrest.table?_eq, hfirst.table?_eq, factsOf?_cons]
    split_ifs with heq
    · rw [factsOf?_eq_none (heq ▸ hnew)]
      rfl
    · rfl
  get_code module := by
    have hruntime : middle.runtime = before.runtime := by
      rw [hfirst.frame]
      rfl
    have hmiddle : middle.code.get module before.runtime =
        if manifest.id = module then manifest.mergeCode (before.code.get module before.runtime)
        else before.code.get module before.runtime := by
      rw [hfirst.frame]
      refine (CodeTable.get_edit _ _ _ _ _ _).trans ?_
      by_cases heq : manifest.id = module
      · rw [heq, if_pos rfl, if_pos rfl]
      · rw [if_neg fun hpair => heq (Prod.mk.inj hpair).1, if_neg heq]
    have hcode := hrest.get_code module
    rw [hruntime, hmiddle] at hcode
    rw [hcode, factsOf?_cons]
    split_ifs with heq
    · rw [factsOf?_eq_none (heq ▸ hnew)]
      rfl
    · rfl
  mem_imports_iff importer imported := by
    have hmiddle : middle.importGraph = manifest.graphAfter before.importGraph := by
      rw [hfirst.frame]
    rw [hrest.mem_imports_iff, hmiddle, ModuleManifest.mem_imports_graphAfter_iff, or_assoc]
    simp
  mem_asynchronous_iff module := by
    have hmiddle : middle.importGraph = manifest.graphAfter before.importGraph := by
      rw [hfirst.frame]
    rw [hrest.mem_asynchronous_iff, hmiddle, ModuleManifest.mem_asynchronous_graphAfter_iff,
      or_assoc]
    simp

/-- Loading distinct modules that were registered, and no more, succeeds. -/
theorem exists_loadModules_eq_ok {modules : List ModuleManifest}
    (hnodup : (modules.map ModuleManifest.id).Nodup) {build : Build}
    (hregistered : ∀ manifest ∈ modules,
      build.registry.table? manifest.id = some (.named manifest.name)) :
    ∃ after, loadModules modules build = .ok after ∧ Loads modules build after := by
  induction modules generalizing build with
  | nil => exact ⟨build, rfl, .nil build⟩
  | cons manifest rest ih =>
    rw [List.map_cons, List.nodup_cons] at hnodup
    rw [List.forall_mem_cons] at hregistered
    obtain ⟨middle, hload, hfirst⟩ := ModuleManifest.exists_load_eq_ok hregistered.1
    have hlater : ∀ later ∈ rest, middle.registry.table? later.id = some (.named later.name) := by
      intro later hlater
      have hother : manifest.id ≠ later.id := fun heq =>
        hnodup.1 (heq ▸ List.mem_map_of_mem hlater)
      rw [hfirst.table?_eq, if_neg hother]
      exact hregistered.2 later hlater
    obtain ⟨after, hafter, hrest⟩ := ih hnodup.2 hlater
    refine ⟨after, ?_, .cons hnodup.1 hfirst hrest⟩
    rw [loadModules, hload]
    exact hafter

/-- What a build holds that a manifest was loaded into, in terms of what the manifest says
of each module. -/
structure Describes (manifest : Manifest) (configuration : Configuration) (build : Build) :
    Prop where
  extensions_eq : build.extensions = (Build.withStandardExtensions configuration).extensions
  configuration_eq : build.configuration = configuration
  chunks_eq : build.chunks = .ofChunks (manifest.chunks.map ChunkManifest.chunk)
  inStep : build.registry.InStep
  table?_eq : ∀ module,
    build.registry.table? module = (factsOf? manifest.modules module).map ModuleManifest.table
  codeOf_eq : ∀ module, build.codeOf module =
    (factsOf? manifest.modules module).elim ∅ fun facts => facts.mergeCode ∅
  mem_imports_iff : ∀ importer imported, (importer, imported) ∈ build.importGraph.imports ↔
    ∃ facts ∈ manifest.modules, facts.id = importer ∧ imported ∈ facts.dependencies
  mem_asynchronous_iff : ∀ module, module ∈ build.importGraph.asynchronous ↔
    ∃ facts ∈ manifest.modules, facts.isAsynchronous = true ∧ facts.id = module

theorem foldl_addChunk_eq (chunks : List ChunkManifest) (build : Build) :
    chunks.foldl addChunk build = { build with
      chunks := (chunks.map ChunkManifest.chunk).foldl ChunkTable.add build.chunks } := by
  induction chunks generalizing build with
  | nil => rfl
  | cons chunk rest ih => exact ih (addChunk build chunk)

/-- A new build in which the modules of a manifest are registered. -/
def registered (manifest : Manifest) (configuration : Configuration) : Build :=
  manifest.modules.foldl registerModule (.withStandardExtensions configuration)

variable {manifest : Manifest} {configuration : Configuration}

theorem table?_registered (hnodup : (manifest.modules.map ModuleManifest.id).Nodup)
    (module : ModuleId) :
    (manifest.registered configuration).registry.table? module =
      (factsOf? manifest.modules module).map fun facts => .named facts.name := by
  refine (table?_foldl_registerModule hnodup _ (fun _ _ => rfl) module).trans ?_
  cases factsOf? manifest.modules module with
  | none => rfl
  | some facts => rfl

/-- What loading leaves in a new build that knows the modules of a manifest. -/
theorem describes_of_loads (hnodup : (manifest.modules.map ModuleManifest.id).Nodup)
    {loaded : Build} (hloads : Loads manifest.modules (manifest.registered configuration) loaded) :
    manifest.Describes configuration (manifest.chunks.foldl addChunk loaded) := by
  obtain ⟨known, hframe⟩ : ∃ known, manifest.registered configuration =
      { Build.withStandardExtensions configuration with
        registry := (manifest.registered configuration).registry
        importGraph := { (∅ : ImportGraph) with modules := known } } :=
    foldl_registerModule_eq manifest.modules _
  have hcode (module : ModuleId) : (manifest.registered configuration).code.get module
      (manifest.registered configuration).runtime = ∅ := by
    rw [hframe]
    rfl
  have hruntime : (manifest.registered configuration).runtime = loaded.runtime := by
    rw [hloads.frame]
    rfl
  rw [foldl_addChunk_eq]
  exact {
    extensions_eq := by rw [hloads.frame, hframe]
    configuration_eq := by
      rw [hloads.frame, hframe]
      rfl
    chunks_eq := by
      rw [hloads.frame, hframe]
      rfl
    inStep := hloads.inStep (inStep_foldl_registerModule manifest.modules .empty)
    table?_eq := fun module => by
      refine (hloads.table?_eq module).trans ?_
      rw [table?_registered hnodup]
      cases factsOf? manifest.modules module with
      | none => rfl
      | some facts => rfl
    codeOf_eq := fun module => by
      have hget := hloads.get_code module
      rw [hcode, hruntime] at hget
      exact hget
    mem_imports_iff := fun importer imported => by
      refine (hloads.mem_imports_iff importer imported).trans ?_
      rw [hframe]
      exact or_iff_right (UniqueList.notMem_empty _)
    mem_asynchronous_iff := fun module => by
      refine (hloads.mem_asynchronous_iff module).trans ?_
      rw [hframe]
      exact or_iff_right (UniqueList.notMem_empty _) }

/-- A manifest of distinct modules can be loaded. -/
theorem exists_load_eq_ok (manifest : Manifest)
    (hnodup : (manifest.modules.map ModuleManifest.id).Nodup) (configuration : Configuration) :
    ∃ build, manifest.load (.withStandardExtensions configuration) = .ok build ∧
      manifest.Describes configuration build := by
  have hknown : ∀ facts ∈ manifest.modules,
      (manifest.registered configuration).registry.table? facts.id = some (.named facts.name) := by
    intro facts hfacts
    rw [table?_registered hnodup, factsOf?_eq_some hnodup hfacts]
    rfl
  obtain ⟨loaded, hloaded, hloads⟩ := exists_loadModules_eq_ok hnodup hknown
  refine ⟨manifest.chunks.foldl addChunk loaded, ?_, describes_of_loads hnodup hloads⟩
  rw [registered] at hloaded
  rw [load, hloaded]
  rfl

end Manifest

end ModuleLinker
