import ModuleLinker.Proofs.Linking.Agreement
import ModuleLinker.Proofs.Linking.Wrapping
import ModuleLinker.Proofs.Manifest.Loading

/-!
# Manifests that say the same

A manifest may list its modules and its chunks in any order, and the dependencies of a
module in any order and number.  Loading it then leaves builds that linking cannot tell
apart: the result is the same, and the journal differs in the order of the cycles at most.
-/

namespace ModuleLinker

/-- Two accounts of the facts about a module that differ at most in the order and the
number of its dependencies. -/
structure ModuleManifest.Restates (first second : ModuleManifest) : Prop where
  core_eq : second.core = first.core
  mem_dependencies_iff : ∀ module, module ∈ second.dependencies ↔ module ∈ first.dependencies

namespace ModuleManifest.Restates

variable {first second : ModuleManifest}

theorem id_eq (h : first.Restates second) : second.id = first.id := by
  rw [← id_core, h.core_eq, id_core]

theorem isAsynchronous_eq (h : first.Restates second) :
    second.isAsynchronous = first.isAsynchronous := by
  rw [← isAsynchronous_core, h.core_eq, isAsynchronous_core]

end ModuleManifest.Restates

namespace Manifest

/-- Two manifests for the same root and members that list the same distinct modules and
the same distinct chunks in any order, and the dependencies of each module in any order
and number. -/
structure Rearranged (first second : Manifest) : Prop where
  root_eq : second.root = first.root
  members_eq : second.members = first.members
  nodup_modules : (first.modules.map ModuleManifest.id).Nodup
  nodup_chunks : (first.chunks.map ChunkManifest.id).Nodup
  modules : ∃ between, first.modules.Perm between ∧
    List.Forall₂ ModuleManifest.Restates between second.modules
  chunks : first.chunks.Perm second.chunks

namespace Rearranged

variable {first second : Manifest}

/-- Both manifests have a module of some kind, unless the kind depends on the order or the
number of dependencies. -/
theorem exists_mem_iff (h : first.Rearranged second) {p : ModuleManifest → Prop}
    (hp : ∀ facts other, facts.Restates other → (p other ↔ p facts)) :
    (∃ facts ∈ second.modules, p facts) ↔ ∃ facts ∈ first.modules, p facts := by
  obtain ⟨between, hperm, hrestates⟩ := h.modules
  have hbetween : (∃ facts ∈ second.modules, p facts) ↔ ∃ facts ∈ between, p facts := by
    clear hperm
    generalize second.modules = modules at hrestates
    induction hrestates with
    | nil => rfl
    | cons hfirst _ ih => rw [List.exists_mem_cons_iff, List.exists_mem_cons_iff, ih, hp _ _ hfirst]
  simp only [hbetween, hperm.mem_iff]

theorem nodup_modules_second (h : first.Rearranged second) :
    (second.modules.map ModuleManifest.id).Nodup := by
  obtain ⟨between, hperm, hrestates⟩ := h.modules
  have hids : second.modules.map ModuleManifest.id = between.map ModuleManifest.id :=
    map_eq_of_forall₂ hrestates fun _ _ _ _ hfacts => hfacts.id_eq
  rw [hids]
  exact (hperm.map ModuleManifest.id).nodup_iff.mp h.nodup_modules

/-- Both manifests say the same of each module. -/
theorem factsOf?_eq (h : first.Rearranged second) (module : ModuleId) :
    factsOf? second.modules module = factsOf? first.modules module := by
  ext facts
  rw [factsOf?_eq_some_iff h.nodup_modules_second, factsOf?_eq_some_iff h.nodup_modules]
  exact h.exists_mem_iff fun _ _ hfacts => by rw [hfacts.id_eq, hfacts.core_eq]

variable {configuration : Configuration} {build other : Build}

theorem isImported_eq (h : first.Rearranged second) (hbuild : first.Describes configuration build)
    (hother : second.Describes configuration other) (module : ModuleId) :
    other.importGraph.isImported module = build.importGraph.isImported module := by
  rw [Bool.eq_iff_iff, ImportGraph.isImported_iff, ImportGraph.isImported_iff]
  refine exists_congr fun importer => ?_
  rw [hbuild.mem_imports_iff, hother.mem_imports_iff]
  exact h.exists_mem_iff fun _ _ hfacts => by rw [hfacts.id_eq, hfacts.mem_dependencies_iff]

theorem isAsynchronous_eq (h : first.Rearranged second)
    (hbuild : first.Describes configuration build)
    (hother : second.Describes configuration other) (module : ModuleId) :
    other.importGraph.isAsynchronous module = build.importGraph.isAsynchronous module := by
  rw [Bool.eq_iff_iff, ImportGraph.isAsynchronous, ImportGraph.isAsynchronous,
    UniqueList.contains_iff, UniqueList.contains_iff, hbuild.mem_asynchronous_iff,
    hother.mem_asynchronous_iff]
  exact h.exists_mem_iff fun _ _ hfacts => by rw [hfacts.id_eq, hfacts.isAsynchronous_eq]

/-- Chunks with distinct numbers are all there, whatever their order. -/
theorem isCurrent_iff {chunks : List ChunkManifest}
    (hnodup : (chunks.map ChunkManifest.id).Nodup) {chunk : Chunk} :
    chunk.IsCurrent (chunks.map ChunkManifest.chunk) ↔
      ∃ manifest ∈ chunks, manifest.chunk = chunk := by
  have hids : (chunks.map ChunkManifest.chunk).map Chunk.id = chunks.map ChunkManifest.id := by
    rw [List.map_map]
    exact List.map_congr_left fun manifest _ => Chunk.id_ofModules _ _ _ _ _
  rw [Chunk.isCurrent_iff_mem (hids ▸ hnodup), List.mem_map]

theorem factsAllow_eq (h : first.Rearranged second) (hbuild : first.Describes configuration build)
    (hother : second.Describes configuration other) (module : ModuleId) :
    Wrapper.factsAllow other.toBuildFacts module =
      Wrapper.factsAllow build.toBuildFacts module := by
  have hclosed (chunks : List ChunkManifest) :
      ∀ chunk ∈ chunks.map ChunkManifest.chunk, chunk.Closed := by
    rw [List.forall_mem_map]
    exact fun manifest _ => Chunk.closed_ofModules _ _ _ _ _
  have hchunks : (other.chunks.containing module).all (Wrapper.chunkAllows other.chunks) =
      (build.chunks.containing module).all (Wrapper.chunkAllows build.chunks) := by
    rw [Bool.eq_iff_iff, Wrapper.all_chunkAllows_iff module hother.chunks_eq (hclosed _),
      Wrapper.all_chunkAllows_iff module hbuild.chunks_eq (hclosed _)]
    refine forall_congr' fun chunk => ?_
    rw [isCurrent_iff h.nodup_chunks,
      isCurrent_iff ((h.chunks.map ChunkManifest.id).nodup_iff.mp h.nodup_chunks)]
    simp only [h.chunks.mem_iff]
  rw [Wrapper.factsAllow, Wrapper.factsAllow, h.isImported_eq hbuild hother, hchunks]

/-- Builds that rearranged manifests were loaded into agree. -/
theorem agree (h : first.Rearranged second) (hbuild : first.Describes configuration build)
    (hother : second.Describes configuration other) : build.Agree other where
  definitionsTaps_eq := by
    rw [hbuild.extensions_eq]
    rfl
  bailoutTaps_eq := by
    rw [hbuild.extensions_eq]
    rfl
  extensions_eq := by rw [hbuild.extensions_eq, hother.extensions_eq]
  configuration_eq := by rw [hbuild.configuration_eq, hother.configuration_eq]
  tables := by
    apply ExportRegistry.SameTables.sameTablesIn
    intro module
    rw [hbuild.table?_eq, hother.table?_eq, h.factsOf?_eq]
  codeOf_eq module := by rw [hbuild.codeOf_eq, hother.codeOf_eq, h.factsOf?_eq]
  isAsynchronous_eq := h.isAsynchronous_eq hbuild hother
  factsAllow_eq := h.factsAllow_eq hbuild hother

end Rearranged

/-- Linking does not depend on the order in which a manifest lists independent facts: the
library or the reason why there is none is the same, and the journals differ in the order
of the cycles at most. -/
theorem link_rearranged {first second : Manifest} (h : first.Rearranged second)
    (configuration : Configuration) :
    (first.link configuration).SameButCycles (second.link configuration) := by
  obtain ⟨build, hload, hbuild⟩ := exists_load_eq_ok first h.nodup_modules configuration
  obtain ⟨other, hotherLoad, hother⟩ :=
    exists_load_eq_ok second h.nodup_modules_second configuration
  have hagree := h.agree hbuild hother
  have hcycles := hagree.tables.cycles_perm hbuild.inStep hother.inStep
  rw [link, link, hload, hotherLoad, h.root_eq, h.members_eq]
  exact Build.link_congr hagree hcycles first.root first.members

/-- The facts about an asynchronous root with an export and an import from outside. -/
def rootFacts (dependencies : List ModuleId) : ModuleManifest where
  id := ⟨0⟩
  name := "./index.js"
  isAsynchronous := true
  dependencies
  others := .notProvided
  exports := [⟨"x", .provided, ∅, none, none⟩]
  declarations := ["x"]
  backing := .ofList [("x", "x")]
  definitions := none
  imports := [⟨"ext", [⟨"default", "y"⟩]⟩]

/-- The facts about a module whose export forwards to itself. -/
def circularFacts (id : ModuleId) (name : String) : ModuleManifest where
  id
  name
  isAsynchronous := false
  dependencies := []
  others := .notProvided
  exports := [⟨"x", .provided, ∅, some ⟨id, some "x"⟩, none⟩]
  declarations := []
  backing := ∅
  definitions := none
  imports := []

/-- With modules and chunks in the opposite order and a dependency listed twice, the library
stays the same, and the two cycles change places in the journal. -/
theorem link_rearranged_reversed :
    let main : ChunkManifest := ⟨⟨0⟩, none, true, [⟨0⟩], [⟨1⟩]⟩
    let lazy : ChunkManifest := ⟨⟨1⟩, some "lazy", false, [], [⟨2⟩]⟩
    let left := circularFacts ⟨1⟩ "./left.js"
    let right := circularFacts ⟨2⟩ "./right.js"
    let first : Manifest := ⟨⟨0⟩, [⟨0⟩], [rootFacts [⟨1⟩, ⟨2⟩], left, right], [main, lazy]⟩
    let second : Manifest :=
      ⟨⟨0⟩, [⟨0⟩], [right, left, rootFacts [⟨2⟩, ⟨1⟩, ⟨2⟩]], [lazy, main]⟩
    ∃ linked, (first.link default).result = .ok linked ∧
      linked.code = "import \x7b default as y \x7d from \"ext\";\n" ++
        "__scopelink_exports__ = await __scopelink_exports__;\nexport \x7b x \x7d;\n" ∧
      linked.wrapperOmittable = true ∧
      (second.link default).result = .ok linked ∧
      (first.link default).SameButCycles (second.link default) ∧
      (first.link default).journal ≠ (second.link default).journal := by
  intro main lazy left right first second
  have hrearranged : first.Rearranged second := {
    root_eq := rfl
    members_eq := rfl
    nodup_modules := by decide
    nodup_chunks := by decide
    modules := by
      refine ⟨[right, left, rootFacts [⟨1⟩, ⟨2⟩]], ?_, ?_⟩
      · exact (List.reverse_perm first.modules).symm
      · refine .cons ⟨rfl, fun _ => Iff.rfl⟩ (.cons ⟨rfl, fun _ => Iff.rfl⟩ (.cons ⟨rfl, ?_⟩ .nil))
        intro module
        simp only [rootFacts, List.mem_cons, List.not_mem_nil, or_false]
        tauto
    chunks := .swap lazy main [] }
  obtain ⟨linked, hlink, hread⟩ := exists_eq_ok_of_map_toOption (first.link default).result
    (fun linked => (linked.code, linked.wrapperOmittable))
    (y := ("import \x7b default as y \x7d from \"ext\";\n" ++
      "__scopelink_exports__ = await __scopelink_exports__;\nexport \x7b x \x7d;\n", true))
    (by decide +kernel)
  obtain ⟨hcode, homitted⟩ := Prod.mk.inj hread
  have hsame := link_rearranged hrearranged default
  exact ⟨linked, hlink, hcode, homitted, hsame.result_eq.trans hlink, hsame, by decide +kernel⟩

end Manifest

end ModuleLinker
