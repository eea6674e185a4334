import ModuleLinker.Error
import ModuleLinker.Exports.Forwarding

/-!
# The registry of exports

The registry holds the exports of every known module, in the order in which the
modules were registered and the exports were first added.  It keeps the
forwarding graph in step: each change to an export redirects its site.
-/

namespace ModuleLinker

/-- The exports of one module in the order of their declaration.  `others` tells
whether names that are not listed are provided.  That every export is listed under
its own name is part of the value. -/
structure ExportTable where
  moduleName : String
  exports : OrderedMap String Export
  others : Provision
  keyed : ∀ entry ∈ exports.entries, entry.2.name = entry.1

namespace ExportTable

/-- A table without exports, under the name of its module. -/
def named (moduleName : String) : ExportTable :=
  ⟨moduleName, ∅, .notProvided, fun _ h => absurd h List.not_mem_nil⟩

/-- List an export under its name, in the place of the one that was listed under
it. -/
def put (table : ExportTable) (e : Export) : ExportTable where
  moduleName := table.moduleName
  exports := table.exports.insert e.name e
  others := table.others
  keyed entry h := by
    rcases OrderedMap.mem_entries_insert h with rfl | h
    · rfl
    · exact table.keyed entry h

/-- The exports in the order of their declaration. -/
def declared (table : ExportTable) : List Export := table.exports.values

/-- Whether a name is listed. -/
def lists (table : ExportTable) (name : String) : Bool := table.exports.contains name

theorem name_of_find? {table : ExportTable} {name : String} {e : Export}
    (h : table.exports.find? name = some e) : e.name = name :=
  table.keyed (name, e) (OrderedMap.find?_eq_some_iff.mp h)

/-- A declared export is the one that is listed under its name. -/
theorem find?_of_mem_declared {table : ExportTable} {e : Export} (h : e ∈ table.declared) :
    table.exports.find? e.name = some e := by
  obtain ⟨name, hname⟩ := OrderedMap.exists_find?_of_mem_values h
  rw [name_of_find? hname]
  exact hname

/-- No two declared exports share a name. -/
theorem nodup_declared_names (table : ExportTable) : (table.declared.map Export.name).Nodup := by
  have hkeys : table.declared.map Export.name = table.exports.keys := by
    unfold declared OrderedMap.values OrderedMap.keys
    rw [List.map_map]
    exact List.map_congr_left fun entry h => table.keyed entry h
  rw [hkeys]
  exact table.exports.nodup_keys

/-- Whether a name is provided, listed or not. -/
def provisionOf (table : ExportTable) (name : String) : Provision :=
  match table.exports.find? name with
  | some e => e.provision
  | none => table.others

end ExportTable

/-- The exports of all registered modules and the graph of their re-exports. -/
structure ExportRegistry where
  tables : OrderedMap ModuleId ExportTable
  forwarding : ForwardingGraph

namespace ExportRegistry

instance : EmptyCollection ExportRegistry := ⟨⟨∅, ∅⟩⟩

instance : Inhabited ExportRegistry := ⟨∅⟩

/-- The exports of a module, if it is registered. -/
def table? (registry : ExportRegistry) (module : ModuleId) : Option ExportTable :=
  registry.tables.find? module

/-- Whether a module is registered. -/
def isRegistered (registry : ExportRegistry) (module : ModuleId) : Bool :=
  registry.tables.contains module

/-- The export at a site, if there is one. -/
def export? (registry : ExportRegistry) (site : ExportSite) : Option Export :=
  (registry.table? site.module).bind fun table => table.exports.find? site.name

/-- Register a module.  For one that is registered already only the name
changes. -/
def register (registry : ExportRegistry) (module : ModuleId) (name : String) : ExportRegistry :=
  let table :=
    match registry.table? module with
    | some table => { table with moduleName := name }
    | none => ExportTable.named name
  { registry with tables := registry.tables.insert module table }

/-- Add an export to a registered module or replace the one of the same name,
which keeps its place. -/
def addExport (registry : ExportRegistry) (module : ModuleId) (e : Export) :
    Except LinkError ExportRegistry :=
  match registry.table? module with
  | none => .error (.unregistered module)
  | some table =>
    .ok {
      tables := registry.tables.insert module (table.put e)
      forwarding := registry.forwarding.redirect ⟨module, e.name⟩ e.forwardSite? }

/-- Say whether the names that a registered module does not list are
provided. -/
def setOthers (registry : ExportRegistry) (module : ModuleId) (others : Provision) :
    Except LinkError ExportRegistry :=
  match registry.table? module with
  | none => .error (.unregistered module)
  | some table =>
    .ok { registry with tables := registry.tables.insert module { table with others } }

/-- The groups of exports that forward to each other in a circle. -/
def cycles (registry : ExportRegistry) : List (List ExportSite) := registry.forwarding.cycles

/-- A module that is not registered cannot get an export. -/
theorem addExport_of_unregistered {registry : ExportRegistry} {module : ModuleId}
    (h : registry.table? module = none) (e : Export) :
    registry.addExport module e = .error (.unregistered module) := by
  simp [addExport, h]

end ExportRegistry

end ModuleLinker
