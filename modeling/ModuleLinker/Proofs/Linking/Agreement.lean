import ModuleLinker.Interface.Wrapper
import ModuleLinker.Proofs.Linking.Rebuilding
import ModuleLinker.Proofs.Naming.Agreement

/-!
# What linking reads

Linking looks modules, exports and code up for one runtime, and asks of the import graph
and the chunks only whether a module is asynchronous and whether its wrapper can be
omitted.  Builds that agree in all this are linked alike, and their journals differ in the
cycles at most.
-/

namespace ModuleLinker

/-- Builds with the wrapper check as the only definitions tap and without bailout taps that
agree in everything that linking reads. -/
structure Build.Agree (first second : Build) : Prop where
  definitionsTaps_eq : first.extensions.definitionsTaps = [Wrapper.tap]
  bailoutTaps_eq : first.extensions.bailoutTaps = []
  extensions_eq : second.extensions = first.extensions
  configuration_eq : second.configuration = first.configuration
  tables : ExportRegistry.SameTablesIn first.runtime first.registry second.registry
  codeOf_eq : ∀ module, second.codeOf module = first.codeOf module
  isAsynchronous_eq : ∀ module,
    second.importGraph.isAsynchronous module = first.importGraph.isAsynchronous module
  factsAllow_eq : ∀ module,
    Wrapper.factsAllow second.toBuildFacts module = Wrapper.factsAllow first.toBuildFacts module

variable {first second : Build}

namespace Build.Agree

theorem runtime_eq (h : first.Agree second) : second.runtime = first.runtime :=
  congrArg Configuration.runtime h.configuration_eq

theorem sameExports (h : first.Agree second) :
    first.toBuildFacts.SameExports second.toBuildFacts := ⟨h.runtime_eq, h.tables⟩

end Build.Agree

namespace Concatenation

/-- Agreeing builds merge modules to the same concatenation. -/
theorem build_congr (h : first.Agree second) (root : ModuleId) (modules : List ModuleId) :
    Concatenation.build second root modules = Concatenation.build first root modules := by
  have hnamed : ∀ distinct, NamedMembers.ofModules second.toBuildFacts distinct =
      NamedMembers.ofModules first.toBuildFacts distinct :=
    NamedMembers.ofModules_congr h.sameExports fun module => by
      rw [h.codeOf_eq]
      exact ⟨rfl, rfl, rfl⟩
  rw [Concatenation.build, Concatenation.build, firstUnregistered?, firstUnregistered?,
    h.tables.isRegistered_eq, hnamed, h.extensions_eq, h.runtime_eq]

theorem definitions_congr {unit : Concatenation} {registry other : ExportRegistry}
    (h : ExportRegistry.SameTablesIn unit.runtime registry other) :
    unit.definitions other = unit.definitions registry := by
  rw [definitions, definitions]
  simp only [h.accessName_eq]

end Concatenation

/-- Publishing the same concatenation keeps builds in agreement. -/
theorem Build.Agree.publish (h : first.Agree second) (unit : Concatenation)
    (definitions : ExportMap) :
    (first.publish unit definitions).Agree (second.publish unit definitions) where
  definitionsTaps_eq := h.definitionsTaps_eq
  bailoutTaps_eq := h.bailoutTaps_eq
  extensions_eq := h.extensions_eq
  configuration_eq := h.configuration_eq
  tables := h.tables
  codeOf_eq module := by
    have hcode := h.codeOf_eq module
    have hfirst := Concatenation.codeOf_publish first unit definitions module
    have hsecond := Concatenation.codeOf_publish second unit definitions module
    exact (hsecond.trans (congrArg _ hcode)).trans hfirst.symm
  isAsynchronous_eq := h.isAsynchronous_eq
  factsAllow_eq := h.factsAllow_eq

namespace Interface

theorem planExport_congr (h : first.Agree second) (module : ModuleId) (definitions : ExportMap) :
    Draft.planExport second.toBuildFacts module definitions =
      Draft.planExport first.toBuildFacts module definitions := by
  funext draft e
  rw [Draft.planExport, Draft.planExport, Draft.visibleName?, Draft.visibleName?,
    h.tables.resolve_eq, h.runtime_eq]

/-- Planning an export does not ask what other runtimes do with it. -/
theorem planExport_inRuntime (facts : BuildFacts) (module : ModuleId) (definitions : ExportMap)
    (draft : Draft) (e : Export) :
    Draft.planExport facts module definitions draft (e.inRuntime facts.runtime) =
      Draft.planExport facts module definitions draft e := by
  have hvisible : Draft.visibleName? facts module (e.inRuntime facts.runtime) =
      Draft.visibleName? facts module e := by
    rw [Draft.visibleName?, Draft.visibleName?, e.accessName_inRuntime]
    rfl
  rw [Draft.planExport, Draft.planExport, hvisible]
  rfl

/-- A library selects the same exports of tables that differ in other runtimes. -/
theorem map_selected (library : Library) (table : ExportTable) (runtime : Runtime) :
    (library.selected table).map (Export.inRuntime · runtime) =
      library.selected (table.inRuntime runtime) := by
  cases honly : library.only with
  | none =>
    rw [Library.selected, Library.selected, honly]
    exact (table.declared_inRuntime runtime).symm
  | some name =>
    rw [Library.selected, Library.selected, honly]
    dsimp only
    rw [table.find?_inRuntime, Option.toList_map]

/-- The exports of tables that differ in other runtimes are planned alike. -/
theorem foldl_planExport_congr (facts : BuildFacts) (library : Library)
    {table other : ExportTable}
    (heq : other.inRuntime facts.runtime = table.inRuntime facts.runtime) (module : ModuleId)
    (definitions : ExportMap) (draft : Draft) :
    (library.selected other).foldl (Draft.planExport facts module definitions) draft =
      (library.selected table).foldl (Draft.planExport facts module definitions) draft := by
  have herased (exports : List Export) :
      exports.foldl (Draft.planExport facts module definitions) draft =
        (exports.map (Export.inRuntime · facts.runtime)).foldl
          (Draft.planExport facts module definitions) draft := by
    rw [List.foldl_map]
    simp only [planExport_inRuntime]
  rw [herased, map_selected, heq, ← map_selected, ← herased]

/-- The wrapper check gives agreeing builds the same verdict, and writes nothing. -/
theorem firstVerdict_congr (h : first.Agree second) (definitions : ExportMap)
    (module : ModuleId) :
    DefinitionsTap.firstVerdict definitions module second.toBuildFacts
        second.extensions.bailoutTaps second.extensions.definitionsTaps =
      DefinitionsTap.firstVerdict definitions module first.toBuildFacts
        first.extensions.bailoutTaps first.extensions.definitionsTaps := by
  have hcheck (build : Build) : DefinitionsTap.firstVerdict definitions module
      build.toBuildFacts [] [Wrapper.tap] =
        (⟨[], some (Wrapper.factsAllow build.toBuildFacts module)⟩ : Journaled (Option Bool)) :=
    rfl
  rw [h.extensions_eq, h.definitionsTaps_eq, h.bailoutTaps_eq, hcheck, hcheck, h.factsAllow_eq]

/-- Agreeing builds plan the same interface. -/
theorem plan_congr (h : first.Agree second) (library : Library) (module : ModuleId)
    (unit : Option Concatenation) :
    plan second library module unit = plan first library module unit := by
  have hdefinitions : definitionsOf second.toBuildFacts module =
      definitionsOf first.toBuildFacts module := by
    rw [definitionsOf, definitionsOf, h.codeOf_eq]
  have hscope : startScope second.toBuildFacts module unit =
      startScope first.toBuildFacts module unit := by
    cases unit with
    | none => rw [startScope, startScope, h.codeOf_eq]
    | some unit => rfl
  rw [plan, plan]
  obtain ⟨hfirst, hsecond⟩ | ⟨table, other, hfirst, hsecond, heq⟩ := h.tables.table?_cases module
  · rw [hfirst, hsecond]
  · rw [hfirst, hsecond]
    dsimp only
    rw [hdefinitions, hscope, planExport_congr h, firstVerdict_congr h, h.isAsynchronous_eq,
      h.configuration_eq, foldl_planExport_congr first.toBuildFacts library heq]

end Interface

/-- Outcomes with the same result and the same journal, but for the order of the cycles that
it starts with. -/
structure LinkOutcome.SameButCycles (first second : LinkOutcome) : Prop where
  result_eq : second.result = first.result
  journal_eq : ∃ (cycles others : List (List ExportSite)) (rest : List JournalEntry),
    cycles.Perm others ∧
    first.journal = cycles.map JournalEntry.circularExports ++ rest ∧
    second.journal = others.map JournalEntry.circularExports ++ rest

theorem LinkOutcome.SameButCycles.of_eq {outcome other : LinkOutcome}
    (hresult : other.result = outcome.result) (hjournal : other.journal = outcome.journal) :
    outcome.SameButCycles other :=
  ⟨hresult, [], [], outcome.journal, .nil, rfl, hjournal⟩

/-- A library fits a module of registries that differ in other runtimes alike. -/
theorem Library.checkAgainst_congr {runtime : Runtime} {registry other : ExportRegistry}
    (h : ExportRegistry.SameTablesIn runtime registry other) (library : Library)
    (module : ModuleId) :
    library.checkAgainst other module = library.checkAgainst registry module := by
  rw [checkAgainst, checkAgainst]
  obtain ⟨hfirst, hsecond⟩ | ⟨table, changed, hfirst, hsecond, heq⟩ := h.table?_cases module
  · rw [hfirst, hsecond]
  · have hlists (name : String) : changed.lists name = table.lists name := by
      rw [← changed.lists_inRuntime runtime, heq, table.lists_inRuntime]
    rw [hfirst, hsecond]
    dsimp only
    simp only [hlists]

namespace Build

/-- Agreeing builds finish alike. -/
theorem finish_congr (h : first.Agree second) (library : Library) (root : ModuleId)
    (unit : Option Concatenation) (imports : List ImportStatement) (definitions : ExportMap)
    {cycles others : List (List ExportSite)} (hcycles : cycles.Perm others)
    (rest : List JournalEntry) :
    (first.finish library root unit imports definitions
      (cycles.map JournalEntry.circularExports ++ rest)).SameButCycles
      (second.finish library root unit imports definitions
        (others.map JournalEntry.circularExports ++ rest)) := by
  rw [finish, finish, Interface.plan_congr h]
  cases (Interface.plan first library root unit).value with
  | error reason =>
    exact ⟨rfl, cycles, others, _, hcycles, List.append_assoc _ _ _, List.append_assoc _ _ _⟩
  | ok interface =>
    refine ⟨rfl, cycles, others, rest ++ (Interface.plan first library root unit).entries ++
      [.linked root interface.exports.length interface.wrapperOmittable], hcycles, ?_, ?_⟩
    · simp only [List.append_assoc]
    · simp only [List.append_assoc]

/-- Agreeing builds are linked alike. -/
theorem link_congr (h : first.Agree second)
    (hcycles : first.registry.cycles.Perm second.registry.cycles) (root : ModuleId)
    (members : List ModuleId) :
    (first.link root members).SameButCycles (second.link root members) := by
  rw [link, link, h.configuration_eq]
  cases Library.ofOptions first.configuration.library with
  | error reason => exact .of_eq rfl rfl
  | ok library =>
    dsimp only
    rw [library.checkAgainst_congr h.tables]
    cases library.checkAgainst first.registry root with
    | error reason => exact .of_eq rfl rfl
    | ok _ =>
      dsimp only
      rw [linkMembers, linkMembers]
      split_ifs with hmembers
      · have hfinish := finish_congr h library root none (first.codeOf root).imports ∅ hcycles []
        rw [List.append_nil, List.append_nil] at hfinish
        rw [h.codeOf_eq]
        exact hfinish
      · rw [Concatenation.build_congr h]
        dsimp only
        cases hunit : (Concatenation.build first root members).value with
        | error reason => exact ⟨rfl, _, _, _, hcycles, rfl, rfl⟩
        | ok unit =>
          have hruntime : unit.runtime = first.runtime := Concatenation.runtime_of_build hunit
          have hdefinitions : unit.definitions second.registry = unit.definitions first.registry :=
            Concatenation.definitions_congr (hruntime ▸ h.tables)
          dsimp only
          rw [hdefinitions]
          exact finish_congr (h.publish unit _) library root (some unit) _ _ hcycles _

end Build

end ModuleLinker
