import ModuleLinker.Proofs.Linking.Agreement
import ModuleLinker.Proofs.Linking.Atomicity

/-!
# Other runtimes

A build is linked for one runtime, but it also holds what other runtimes do with exports
and what is known of the code for them.  None of that reaches the library: builds that
agree apart from it are linked alike, and they still agree afterwards.
-/

namespace ModuleLinker

namespace CodeTable

/-- Tables with the same entries for one runtime. -/
def SameIn (runtime : Runtime) (first second : CodeTable) : Prop :=
  ∀ module, second.find? module runtime = first.find? module runtime

namespace SameIn

variable {runtime : Runtime} {first second : CodeTable}

theorem get_eq (h : SameIn runtime first second) (module : ModuleId) :
    second.get module runtime = first.get module runtime := by
  rw [get, get, h]

/-- The same edit for the runtime keeps its entries the same. -/
theorem edit (h : SameIn runtime first second) (module : ModuleId)
    (change : ModuleCode → ModuleCode) :
    SameIn runtime (first.edit module runtime change) (second.edit module runtime change) := by
  intro other
  rw [find?_edit, find?_edit, h.get_eq, h]

theorem foldl_edit (h : SameIn runtime first second) {α : Type} (moduleOf : α → ModuleId)
    (change : α → ModuleCode → ModuleCode) (entries : List α) :
    SameIn runtime
      (entries.foldl (fun table entry => table.edit (moduleOf entry) runtime (change entry)) first)
      (entries.foldl (fun table entry => table.edit (moduleOf entry) runtime (change entry))
        second) := by
  induction entries generalizing first second with
  | nil => exact h
  | cons entry rest ih => exact ih (h.edit (moduleOf entry) (change entry))

end SameIn

end CodeTable

namespace Build

/-- Builds that agree on everything except what runtimes other than that of the build do
with exports and what is known of the code for them. -/
structure SameInRuntime (first second : Build) : Prop where
  configuration_eq : second.configuration = first.configuration
  extensions_eq : second.extensions = first.extensions
  importGraph_eq : second.importGraph = first.importGraph
  chunks_eq : second.chunks = first.chunks
  registry_eq : second.registry.inRuntime first.runtime = first.registry.inRuntime first.runtime
  code : CodeTable.SameIn first.runtime first.code second.code

namespace SameInRuntime

variable {first second : Build}

/-- A build agrees with one that has another registry and other code, if these differ in
other runtimes only. -/
theorem of_update {build : Build} {registry : ExportRegistry} {code : CodeTable}
    (hregistry : registry.inRuntime build.runtime = build.registry.inRuntime build.runtime)
    (hcode : CodeTable.SameIn build.runtime build.code code) :
    build.SameInRuntime { build with registry, code } :=
  ⟨rfl, rfl, rfl, rfl, hregistry, hcode⟩

theorem runtime_eq (h : first.SameInRuntime second) : second.runtime = first.runtime :=
  congrArg Configuration.runtime h.configuration_eq

theorem tables (h : first.SameInRuntime second) :
    ExportRegistry.SameTablesIn first.runtime first.registry second.registry := by
  intro module
  rw [h.registry_eq]

theorem cycles_eq (h : first.SameInRuntime second) :
    second.registry.cycles = first.registry.cycles :=
  congrArg (fun registry => registry.forwarding.cycles) h.registry_eq

/-- Such builds agree in everything that linking reads. -/
theorem agree (h : first.SameInRuntime second)
    (hstandard : first.extensions = (withStandardExtensions first.configuration).extensions) :
    first.Agree second where
  definitionsTaps_eq := by
    rw [hstandard]
    rfl
  bailoutTaps_eq := by
    rw [hstandard]
    rfl
  extensions_eq := h.extensions_eq
  configuration_eq := h.configuration_eq
  tables := h.tables
  codeOf_eq module := by
    rw [BuildFacts.codeOf, BuildFacts.codeOf, h.runtime_eq, h.code.get_eq]
  isAsynchronous_eq module := by rw [h.importGraph_eq]
  factsAllow_eq module := by
    rw [Wrapper.factsAllow, Wrapper.factsAllow, h.importGraph_eq, h.chunks_eq]

/-- Publishing the same concatenation in both. -/
theorem publish (h : first.SameInRuntime second) (unit : Concatenation)
    (definitions : ExportMap) :
    (first.publish unit definitions).SameInRuntime (second.publish unit definitions) where
  configuration_eq := h.configuration_eq
  extensions_eq := h.extensions_eq
  importGraph_eq := h.importGraph_eq
  chunks_eq := h.chunks_eq
  registry_eq := h.registry_eq
  code := by
    have hpublished := (h.code.edit unit.root fun code =>
      { code with definitions := some definitions }).foldl_edit Prod.fst
        (fun (entry : ModuleId × Member) code => { code with imports := entry.2.imports })
        unit.members.entries
    rw [Build.publish, Build.publish, h.runtime_eq]
    exact hpublished

/-- Linking leaves builds behind that agree again. -/
theorem build_link (h : first.SameInRuntime second)
    (hstandard : first.extensions = (withStandardExtensions first.configuration).extensions)
    (root : ModuleId) (members : List ModuleId)
    (hresult : (second.link root members).result = (first.link root members).result) :
    (first.link root members).build.SameInRuntime (second.link root members).build := by
  cases hlink : (first.link root members).result with
  | error reason =>
    rw [build_link_of_error hlink, build_link_of_error (hresult.trans hlink)]
    exact h
  | ok linked =>
    by_cases hmembers : members = []
    · rw [hmembers, build_link_nil, build_link_nil]
      exact h
    · obtain ⟨-, unit, -, -, -, hunit, -, -, hbuild⟩ := exists_of_link_eq_ok hmembers hlink
      obtain ⟨-, other, -, -, -, hother, -, -, hotherBuild⟩ :=
        exists_of_link_eq_ok hmembers (hresult.trans hlink)
      rw [Concatenation.build_congr (h.agree hstandard), hunit] at hother
      obtain rfl := Except.ok.inj hother
      have htables : ExportRegistry.SameTablesIn unit.runtime first.registry second.registry :=
        Concatenation.runtime_of_build hunit ▸ h.tables
      rw [hbuild, hotherBuild, Concatenation.definitions_congr htables]
      exact h.publish unit _

end SameInRuntime

/-- What other runtimes do with exports and what is known of the code for them does not
reach the library.  With the standard extensions, builds that agree apart from it yield the
same library or fail for the same reason, and what is known of the code for the runtime of
the build is the same afterwards; so the builds that are left behind agree again. -/
theorem link_sameInRuntime {first second : Build} (h : first.SameInRuntime second)
    (hstandard : first.extensions = (withStandardExtensions first.configuration).extensions)
    (root : ModuleId) (members : List ModuleId) :
    (second.link root members).result = (first.link root members).result ∧
      (∀ module, (second.link root members).build.code.find? module first.runtime =
        (first.link root members).build.code.find? module first.runtime) ∧
      (first.link root members).build.SameInRuntime (second.link root members).build := by
  have hsame := link_congr (h.agree hstandard) (.of_eq h.cycles_eq.symm) root members
  have hbuild := h.build_link hstandard root members hsame.result_eq
  have hruntime : (first.link root members).build.runtime = first.runtime := by
    rw [build_link_eq, BuildFacts.runtime, BuildFacts.runtime]
  exact ⟨hsame.result_eq, hruntime ▸ hbuild.code, hbuild⟩

/-- A build in which a worker accesses the origin of a re-export as it likes and declares
some names in its code of the root. -/
def buildWithWorker (usage : Usage) (declarations : List String) : Build :=
  let origin : Export := ⟨"value", .provided, OrderedMap.ofList [("worker", usage)], none, none⟩
  { outsideBuild with
    registry := (outsideBuild.registry.addExport ⟨2⟩ origin).toOption.getD ∅
    code := outsideBuild.code.edit ⟨0⟩ "worker" fun code =>
      { code with declarations := UniqueList.ofList declarations } }

/-- Apart from the worker that is the build without it. -/
theorem sameInRuntime_buildWithWorker (usage : Usage) (declarations : List String) :
    outsideBuild.SameInRuntime (buildWithWorker usage declarations) := by
  apply SameInRuntime.of_update
  · have hworker : (buildWithWorker usage declarations).registry.inRuntime "main" =
        outsideBuild.registry := rfl
    have hplain : outsideBuild.registry.inRuntime "main" = outsideBuild.registry := rfl
    exact hworker.trans hplain.symm
  · intro module
    have hother : ((⟨0⟩, "worker") : ModuleId × Runtime) ≠ (module, outsideBuild.runtime) := by
      intro heq
      exact absurd (Prod.mk.inj heq).2 (by decide)
    rw [CodeTable.find?_edit, if_neg hother]

/-- A worker that knows the origin under another name and declares that of the re-export
does not change what the build is linked to. -/
theorem link_sameInRuntime_worker :
    ∃ linked, (outsideBuild.link ⟨0⟩ [⟨0⟩, ⟨1⟩]).result = .ok linked ∧
      linked.code = outsideCode ∧
      linked.definitions.entries = outsideDefinitions ∧
      ((buildWithWorker (.renamed "v") ["value"]).link ⟨0⟩ [⟨0⟩, ⟨1⟩]).result = .ok linked ∧
      ((buildWithWorker (.renamed "v") ["value"]).link ⟨0⟩ [⟨0⟩, ⟨1⟩]).build.code.find? ⟨0⟩
        outsideBuild.runtime =
          (outsideBuild.link ⟨0⟩ [⟨0⟩, ⟨1⟩]).build.code.find? ⟨0⟩ outsideBuild.runtime := by
  obtain ⟨linked, hlink, hcode, hdefinitions⟩ := exists_link_outsideBuild
  obtain ⟨hresult, hkept, -⟩ := link_sameInRuntime
    (sameInRuntime_buildWithWorker (.renamed "v") ["value"]) rfl ⟨0⟩ [⟨0⟩, ⟨1⟩]
  exact ⟨linked, hlink, hcode, hdefinitions, hresult.trans hlink, hkept ⟨0⟩⟩

end Build

end ModuleLinker
