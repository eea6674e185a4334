import ModuleLinker.Proofs.Exports.Runtimes
import ModuleLinker.Proofs.Naming.Rounds

/-!
# What naming reads

Naming looks at the runtime, at the table of every module except for what other runtimes
do with its exports, and at the code of the members except for their definitions.  Builds
that agree in this give the same names.
-/

namespace ModuleLinker

namespace BuildFacts

/-- Facts with the same runtime and, apart from other runtimes, the same table for every
module. -/
structure SameExports (first second : BuildFacts) : Prop where
  runtime_eq : second.runtime = first.runtime
  tables : ExportRegistry.SameTablesIn first.runtime first.registry second.registry

/-- New facts about code do not touch the exports. -/
theorem SameExports.withCode (facts : BuildFacts) (code : CodeTable) :
    SameExports facts { facts with code } := ⟨rfl, fun _ => rfl⟩

end BuildFacts

namespace Naming

open BuildFacts (SameExports)

/-- Code facts that differ in nothing but definitions. -/
structure SameSource (old new : ModuleCode) : Prop where
  declarations_eq : new.declarations = old.declarations
  backing_eq : new.backing = old.backing
  imports_eq : new.imports = old.imports

variable {first second : BuildFacts}

/-- The same exports can be linked, apart from what other runtimes do with them. -/
theorem map_linkable_congr (h : SameExports first second) (module : ModuleId) :
    (linkable second module).map (Export.inRuntime · first.runtime) =
      (linkable first module).map (Export.inRuntime · first.runtime) := by
  rw [linkable, linkable, h.runtime_eq]
  obtain ⟨hfirst, hsecond⟩ | ⟨table, other, hfirst, hsecond, heq⟩ := h.tables.table?_cases module
  · rw [hfirst, hsecond]
  · rw [hfirst, hsecond]
    let isLinkable (e : Export) : Bool :=
      decide (e.provision = .provided) && (e.accessName first.runtime).isSome
    have hfilter (known : ExportTable) :
        (known.declared.filter isLinkable).map (Export.inRuntime · first.runtime) =
          (known.inRuntime first.runtime).declared.filter isLinkable := by
      have hsame : isLinkable ∘ (Export.inRuntime · first.runtime) = isLinkable := by
        funext e
        exact congrArg (fun access => decide (e.provision = .provided) && Option.isSome access)
          (e.accessName_inRuntime first.runtime)
      rw [known.declared_inRuntime, List.filter_map, hsame]
    exact (hfilter other).trans (heq ▸ (hfilter table).symm)

theorem moduleBaseName_congr (h : SameExports first second) (module : ModuleId) :
    moduleBaseName second module = moduleBaseName first module := by
  rw [moduleBaseName, moduleBaseName]
  obtain ⟨hfirst, hsecond⟩ | ⟨table, other, hfirst, hsecond, heq⟩ := h.tables.table?_cases module
  · rw [hfirst, hsecond]
  · have hnames := congrArg ExportTable.moduleName heq
    have hname : other.moduleName = table.moduleName := hnames
    rw [hfirst, hsecond]
    dsimp only
    rw [hname]

theorem outsideAccessName_congr (h : SameExports first second) (site : ExportSite) :
    outsideAccessName second site = outsideAccessName first site := by
  rw [outsideAccessName, outsideAccessName, h.runtime_eq, h.tables.accessName_eq]

theorem enterMembers_congr
    (h : ∀ module, SameSource (first.codeOf module) (second.codeOf module))
    (index : Nat) (scope : Scope) (modules : List ModuleId) :
    enterMembers second index scope modules = enterMembers first index scope modules := by
  induction modules generalizing index scope with
  | nil => rfl
  | cons module rest ih =>
    rw [enterMembers, enterMembers, ModuleCode.topLevelNames, ModuleCode.importBindings,
      (h module).declarations_eq, (h module).imports_eq]
    dsimp only
    rw [ih]
    rfl

/-- Binding own exports asks only for what stands behind them. -/
theorem bindOwn_congr {old new : ModuleCode} {firstNames secondNames : OrderedMap String String}
    {exports : List Export}
    (hbacking : ∀ e ∈ exports, e.isForwarding = false →
      secondNames.find? (new.backingOf e.name) = firstNames.find? (old.backingOf e.name))
    (scope : Scope) (map : ExportMap) :
    bindOwn new secondNames scope map exports = bindOwn old firstNames scope map exports := by
  induction exports generalizing scope map with
  | nil => rfl
  | cons e rest ih =>
    have hrest := fun other hother => hbacking other (List.mem_cons_of_mem e hother)
    rw [bindOwn, bindOwn]
    split
    · exact ih hrest scope map
    · rename_i hown
      rw [Bool.not_eq_true] at hown
      have hreference :
          ownReference new secondNames scope e = ownReference old firstNames scope e := by
        rw [ownReference, ownReference, hbacking e List.mem_cons_self hown]
      rw [hreference]
      exact ih hrest _ _

/-- Binding own exports does not ask what other runtimes do with them. -/
theorem bindOwn_map_inRuntime (code : ModuleCode) (names : OrderedMap String String)
    (scope : Scope) (map : ExportMap) (exports : List Export) (runtime : Runtime) :
    bindOwn code names scope map (exports.map (Export.inRuntime · runtime)) =
      bindOwn code names scope map exports := by
  induction exports generalizing scope map with
  | nil => rfl
  | cons e rest ih =>
    rw [List.map_cons, bindOwn, bindOwn, e.isForwarding_inRuntime]
    split
    · exact ih scope map
    · exact ih _ _

theorem bindMembers_congr (hexports : SameExports first second)
    (h : ∀ module, SameSource (first.codeOf module) (second.codeOf module))
    (scope : Scope) (members : List Member) :
    bindMembers second scope members = bindMembers first scope members := by
  induction members generalizing scope with
  | nil => rfl
  | cons member rest ih =>
    have hown : bindOwn (second.codeOf member.module) member.localNames scope ∅
        (linkable second member.module) =
          bindOwn (first.codeOf member.module) member.localNames scope ∅
            (linkable first member.module) := by
      rw [← bindOwn_map_inRuntime _ _ _ _ (linkable second member.module) first.runtime,
        map_linkable_congr hexports, bindOwn_map_inRuntime]
      apply bindOwn_congr
      intro e _ _
      rw [ModuleCode.backingOf, ModuleCode.backingOf, (h member.module).backing_eq]
    rw [bindMembers, bindMembers, hown]
    dsimp only
    rw [ih]

theorem originReference_congr (h : SameExports first second)
    (own : OrderedMap ModuleId ExportMap) (names : NamespaceNames) (resolution : Resolution) :
    originReference second own names resolution = originReference first own names resolution := by
  have hinside (module : ModuleId) :
      names.insideName second module = names.insideName first module := by
    rw [NamespaceNames.insideName, NamespaceNames.insideName, moduleBaseName_congr h]
  have houtside (module : ModuleId) :
      names.outsideName second module = names.outsideName first module := by
    rw [NamespaceNames.outsideName, NamespaceNames.outsideName, moduleBaseName_congr h]
  cases resolution with
  | origin site =>
    rw [originReference, originReference, houtside, outsideAccessName_congr h]
  | namespaceOf module => rw [originReference, originReference, hinside, houtside]
  | missing site => rfl
  | undetermined site => rfl
  | circular site => rfl

/-- Mapping exports does not look at code. -/
theorem mapExports_congr (h : SameExports first second) (own : OrderedMap ModuleId ExportMap)
    (module : ModuleId) (names : NamespaceNames) (map : ExportMap) (exports : List Export) :
    mapExports second own module names map exports =
      mapExports first own module names map exports := by
  induction exports generalizing names map with
  | nil => rfl
  | cons e rest ih =>
    have hreference : exportReference second own module names e =
        exportReference first own module names e := by
      rw [exportReference, exportReference, h.tables.resolve_eq, originReference_congr h]
    rw [mapExports, mapExports, hreference]
    split
    · exact ih _ _
    · exact ih _ _

/-- Mapping exports does not ask what other runtimes do with them. -/
theorem mapExports_map_inRuntime (facts : BuildFacts) (own : OrderedMap ModuleId ExportMap)
    (module : ModuleId) (names : NamespaceNames) (map : ExportMap) (exports : List Export)
    (runtime : Runtime) :
    mapExports facts own module names map (exports.map (Export.inRuntime · runtime)) =
      mapExports facts own module names map exports := by
  induction exports generalizing names map with
  | nil => rfl
  | cons e rest ih =>
    have hreference : exportReference facts own module names (e.inRuntime runtime) =
        exportReference facts own module names e := rfl
    rw [List.map_cons, mapExports, mapExports, hreference]
    split
    · exact ih _ _
    · exact ih _ _

theorem mapMembers_congr (h : SameExports first second) (own : OrderedMap ModuleId ExportMap)
    (names : NamespaceNames) (members : List Member) :
    mapMembers second own names members = mapMembers first own names members := by
  induction members generalizing names with
  | nil => rfl
  | cons member rest ih =>
    have hmapped : mapExports second own member.module names ∅ (linkable second member.module) =
        mapExports first own member.module names ∅ (linkable first member.module) := by
      rw [← mapExports_map_inRuntime _ _ _ _ _ (linkable second member.module) first.runtime,
        map_linkable_congr h, mapExports_map_inRuntime, mapExports_congr h]
    rw [mapMembers, mapMembers, hmapped]
    dsimp only
    rw [ih]

end Naming

/-- Facts that agree in what naming reads give the same names. -/
theorem NamedMembers.ofModules_congr {first second : BuildFacts}
    (hexports : first.SameExports second)
    (h : ∀ module, Naming.SameSource (first.codeOf module) (second.codeOf module))
    (modules : UniqueList ModuleId) : ofModules second modules = ofModules first modules := by
  have hentered : entered second modules = entered first modules :=
    Naming.enterMembers_congr h 0 _ modules.toList
  have hbound : bound second modules = bound first modules := by
    rw [bound, bound, hentered]
    exact Naming.bindMembers_congr hexports h _ _
  have hmapped : mapped second modules = mapped first modules := by
    rw [mapped, mapped, hbound, hentered]
    exact Naming.mapMembers_congr hexports _ _ _
  rw [ofModules_eq, ofModules_eq, hmapped]

end ModuleLinker
