import ModuleLinker.Proofs.Exports.Registry

/-!
# Exports in one runtime

What other runtimes do with an export can be left out of the registry.  That changes no
name under which the runtime itself accesses an export, and nothing that a walk from site
to site looks at, so registries with the same tables apart from other runtimes cannot be
told apart by the runtime.
-/

namespace ModuleLinker

namespace OrderedMap

variable {κ ν μ : Type}

theorem values_mapValues (m : OrderedMap κ ν) (f : ν → μ) :
    (m.mapValues fun _ value => f value).values = m.values.map f := by
  rw [values, values, mapValues, List.map_map, List.map_map]
  rfl

variable [DecidableEq κ]

/-- Looking up a value in a map whose values were changed. -/
theorem find?_mapValues (m : OrderedMap κ ν) (f : ν → μ) (key : κ) :
    (m.mapValues fun _ value => f value).find? key = (m.find? key).map f :=
  lookup_map_snd f key m.entries

theorem contains_mapValues (m : OrderedMap κ ν) (f : ν → μ) (key : κ) :
    (m.mapValues fun _ value => f value).contains key = m.contains key := by
  simp only [contains, keys_mapValues]

end OrderedMap

namespace Export

/-- The export without what other runtimes do with it. -/
def inRuntime (e : Export) (runtime : Runtime) : Export :=
  { e with
    usage := OrderedMap.ofList ((e.usage.find? runtime).toList.map fun usage => (runtime, usage)) }

@[simp] theorem name_inRuntime (e : Export) (runtime : Runtime) :
    (e.inRuntime runtime).name = e.name := rfl

@[simp] theorem isForwarding_inRuntime (e : Export) (runtime : Runtime) :
    (e.inRuntime runtime).isForwarding = e.isForwarding := rfl

@[simp] theorem find?_usage_inRuntime (e : Export) (runtime : Runtime) :
    (e.inRuntime runtime).usage.find? runtime = e.usage.find? runtime := by
  rw [inRuntime]
  dsimp only
  cases e.usage.find? runtime with
  | none => rfl
  | some usage => exact OrderedMap.find?_insert_self ∅ runtime usage

/-- Two exports are the same in a runtime when they differ in nothing but what other
runtimes do with them. -/
theorem inRuntime_eq_iff {e other : Export} {runtime : Runtime} :
    e.inRuntime runtime = other.inRuntime runtime ↔
      e.name = other.name ∧ e.provision = other.provision ∧ e.forward = other.forward ∧
        e.constant = other.constant ∧ e.usage.find? runtime = other.usage.find? runtime := by
  constructor
  · intro h
    have husage := congrArg (fun known => known.usage.find? runtime) h
    rw [find?_usage_inRuntime, find?_usage_inRuntime] at husage
    injection h with hname hprovision _ hforward hconstant
    exact ⟨hname, hprovision, hforward, hconstant, husage⟩
  · rintro ⟨hname, hprovision, hforward, hconstant, husage⟩
    rw [inRuntime, inRuntime, hname, hprovision, hforward, hconstant, husage]

@[simp] theorem accessName_inRuntime (e : Export) (runtime : Runtime) :
    (e.inRuntime runtime).accessName runtime = e.accessName runtime := by
  rw [accessName, accessName, usageIn, usageIn, find?_usage_inRuntime, name_inRuntime]

end Export

namespace ExportTable

/-- The table without what other runtimes do with the exports. -/
def inRuntime (table : ExportTable) (runtime : Runtime) : ExportTable where
  moduleName := table.moduleName
  exports := table.exports.mapValues fun _ e => e.inRuntime runtime
  others := table.others
  keyed entry h := by
    obtain ⟨old, hold, rfl⟩ := List.mem_map.mp h
    exact table.keyed old hold

variable (table : ExportTable) (runtime : Runtime)

theorem find?_inRuntime (name : String) :
    (table.inRuntime runtime).exports.find? name =
      (table.exports.find? name).map (Export.inRuntime · runtime) :=
  OrderedMap.find?_mapValues table.exports (Export.inRuntime · runtime) name

theorem declared_inRuntime :
    (table.inRuntime runtime).declared = table.declared.map (Export.inRuntime · runtime) :=
  OrderedMap.values_mapValues table.exports (Export.inRuntime · runtime)

theorem lists_inRuntime (name : String) :
    (table.inRuntime runtime).lists name = table.lists name :=
  OrderedMap.contains_mapValues table.exports (Export.inRuntime · runtime) name

theorem provisionOf_inRuntime (name : String) :
    (table.inRuntime runtime).provisionOf name = table.provisionOf name := by
  rw [provisionOf, provisionOf, find?_inRuntime]
  cases table.exports.find? name <;> rfl

end ExportTable

namespace ExportRegistry

/-- The registry without what other runtimes do with the exports. -/
def inRuntime (registry : ExportRegistry) (runtime : Runtime) : ExportRegistry :=
  { registry with tables := registry.tables.mapValues fun _ table => table.inRuntime runtime }

section InRuntime

variable (registry : ExportRegistry) (runtime : Runtime)

theorem table?_inRuntime (module : ModuleId) :
    (registry.inRuntime runtime).table? module =
      (registry.table? module).map (ExportTable.inRuntime · runtime) :=
  OrderedMap.find?_mapValues registry.tables (ExportTable.inRuntime · runtime) module

theorem export?_inRuntime (site : ExportSite) :
    (registry.inRuntime runtime).export? site =
      (registry.export? site).map (Export.inRuntime · runtime) := by
  rw [export?, export?, table?_inRuntime]
  cases registry.table? site.module with
  | none => rfl
  | some table => exact table.find?_inRuntime runtime site.name

theorem isRegistered_inRuntime :
    (registry.inRuntime runtime).isRegistered = registry.isRegistered := by
  funext module
  exact OrderedMap.contains_mapValues registry.tables (ExportTable.inRuntime · runtime) module

theorem step_inRuntime (site : ExportSite) :
    (registry.inRuntime runtime).step site = registry.step site := by
  rw [step, step, table?_inRuntime]
  cases registry.table? site.module with
  | none => rfl
  | some table =>
    dsimp only [Option.map_some]
    rw [table.provisionOf_inRuntime, table.find?_inRuntime]
    cases table.exports.find? site.name <;> rfl

theorem length_forwarders_inRuntime :
    (registry.inRuntime runtime).forwarders.length = registry.forwarders.length := by
  have htables : (registry.inRuntime runtime).tables.values =
      registry.tables.values.map (ExportTable.inRuntime · runtime) :=
    OrderedMap.values_mapValues registry.tables (ExportTable.inRuntime · runtime)
  rw [forwarders, forwarders, htables, List.flatMap_map, List.length_flatMap,
    List.length_flatMap]
  congr 2
  funext table
  rw [table.declared_inRuntime, List.filter_map, List.length_map]
  rfl

theorem resolve_inRuntime (site : ExportSite) :
    (registry.inRuntime runtime).resolve site = registry.resolve site := by
  rw [resolve, resolve, length_forwarders_inRuntime, walk_congr (registry.step_inRuntime runtime)]

end InRuntime

/-! ## Registries that a runtime cannot tell apart -/

/-- Registries that have the same table for every module, apart from what runtimes other
than the given one do with the exports. -/
def SameTablesIn (runtime : Runtime) (first second : ExportRegistry) : Prop :=
  (first.inRuntime runtime).SameTables (second.inRuntime runtime)

theorem SameTables.sameTablesIn {first second : ExportRegistry} (h : first.SameTables second)
    (runtime : Runtime) : SameTablesIn runtime first second := by
  intro module
  rw [table?_inRuntime, table?_inRuntime, h]

namespace SameTablesIn

variable {runtime : Runtime} {first second : ExportRegistry}

/-- A module is registered in neither, or its tables in the two differ in what other
runtimes do at most. -/
theorem table?_cases (h : SameTablesIn runtime first second) (module : ModuleId) :
    (first.table? module = none ∧ second.table? module = none) ∨
      ∃ table other, first.table? module = some table ∧ second.table? module = some other ∧
        other.inRuntime runtime = table.inRuntime runtime := by
  have hsame := h module
  rw [table?_inRuntime, table?_inRuntime] at hsame
  cases hfirst : first.table? module with
  | none =>
    rw [hfirst, Option.map_none, Option.map_eq_none_iff] at hsame
    exact Or.inl ⟨rfl, hsame⟩
  | some table =>
    rw [hfirst, Option.map_some, Option.map_eq_some_iff] at hsame
    obtain ⟨other, hsecond, heq⟩ := hsame
    exact Or.inr ⟨table, other, rfl, hsecond, heq⟩

theorem export?_eq (h : SameTablesIn runtime first second) (site : ExportSite) :
    (second.export? site).map (Export.inRuntime · runtime) =
      (first.export? site).map (Export.inRuntime · runtime) := by
  rw [← export?_inRuntime, SameTables.export?_eq h, export?_inRuntime]

/-- What is read of an export apart from other runtimes is the same. -/
theorem export?_bind_eq (h : SameTablesIn runtime first second) {α : Type} {f : Export → Option α}
    (hf : ∀ e, f (e.inRuntime runtime) = f e) (site : ExportSite) :
    (second.export? site).bind f = (first.export? site).bind f := by
  have hread (found : Option Export) :
      found.bind f = (found.map (Export.inRuntime · runtime)).bind f := by
    cases found with
    | none => rfl
    | some e => exact (hf e).symm
  rw [hread, h.export?_eq, ← hread]

/-- The runtime accesses an export under the same name. -/
theorem accessName_eq (h : SameTablesIn runtime first second) (site : ExportSite) :
    ((second.export? site).bind fun e => e.accessName runtime) =
      (first.export? site).bind fun e => e.accessName runtime :=
  h.export?_bind_eq (Export.accessName_inRuntime · runtime) site

theorem isRegistered_eq (h : SameTablesIn runtime first second) :
    second.isRegistered = first.isRegistered := by
  rw [← isRegistered_inRuntime second runtime, SameTables.isRegistered_eq h,
    isRegistered_inRuntime]

theorem resolve_eq (h : SameTablesIn runtime first second) (site : ExportSite) :
    second.resolve site = first.resolve site := by
  rw [← resolve_inRuntime second runtime, SameTables.resolve_eq h, resolve_inRuntime]

/-- Such registries have the same cycles up to their order. -/
theorem cycles_perm (h : SameTablesIn runtime first second) (hfirst : first.InStep)
    (hsecond : second.InStep) : first.cycles.Perm second.cycles := by
  apply ForwardingGraph.cycles_perm hfirst.covers hsecond.covers
  intro site
  rw [hfirst.next?_eq, hsecond.next?_eq]
  exact h.export?_bind_eq (fun _ => rfl) site

end SameTablesIn

end ExportRegistry

end ModuleLinker
