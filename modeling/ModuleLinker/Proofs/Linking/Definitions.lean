import ModuleLinker.Proofs.Concatenation.Tapping
import ModuleLinker.Proofs.Interface.Contents
import ModuleLinker.Proofs.Linking

/-!
# The final export map in the interface

Merging and planning decide separately what an export is, and they share only a table
that merging publishes under access names.  Where the access names of the root are
distinct nothing is lost on the way: the interface shows every entry of the final export
map as it stands, and what it shows beyond that are aliases for exports that no merged
binding stands behind.
-/

namespace ModuleLinker

namespace Naming

variable {facts : BuildFacts} {module : ModuleId} {e : Export}

/-- An export that leads somewhere and still has no reference leads to an export of a
merged module that is not listed or not used. -/
theorem exists_unused_origin_of_not_hasReference {merged : List ModuleId} {start : ExportSite}
    (hdangling : Draft.isDangling (facts.registry.resolve start) = false)
    (hnone : ¬ HasReference facts merged (facts.registry.resolve start)) :
    (∃ site, facts.registry.resolve start = .missing site ∧ site.name = "default") ∨
      ∃ site, facts.registry.resolve start = .origin site ∧ site.module ∈ merged ∧
        ∀ e, facts.registry.export? site = some e → e.accessName facts.runtime = none := by
  cases hresolve : facts.registry.resolve start with
  | origin site =>
    rw [hresolve, hasReference_origin_iff hresolve, Classical.not_imp] at hnone
    refine Or.inr ⟨site, rfl, hnone.1, fun e he => ?_⟩
    by_contra hused
    rw [← ne_eq, Option.ne_none_iff_isSome] at hused
    exact hnone.2 ⟨e, he, hused⟩
  | namespaceOf _ =>
    rw [hresolve] at hnone
    exact absurd trivial hnone
  | missing site =>
    rw [hresolve, Draft.isDangling, decide_eq_false_iff_not, ne_eq, Classical.not_not] at hdangling
    exact Or.inl ⟨site, rfl, hdangling⟩
  | undetermined _ =>
    rw [hresolve] at hdangling
    exact Bool.noConfusion hdangling
  | circular _ =>
    rw [hresolve] at hdangling
    exact Bool.noConfusion hdangling

theorem not_isDangling_of_hasReference {merged : List ModuleId} {resolution : Resolution}
    (h : HasReference facts merged resolution) : Draft.isDangling resolution = false := by
  cases resolution with
  | origin _ => rfl
  | namespaceOf _ => rfl
  | missing _ => exact absurd h id
  | undetermined _ => exact absurd h id
  | circular _ => exact absurd h id

end Naming

namespace Concatenation

variable {facts : BuildFacts} {unit : Concatenation} {map : ExportMap} {e : Export}

/-- The name under which the definition of an export of the root is published. -/
def publicName (unit : Concatenation) (registry : ExportRegistry) (exportName : String) : String :=
  ((registry.export? ⟨unit.root, exportName⟩).bind fun e => e.accessName unit.runtime).getD
    exportName

theorem accessName_eq_publicName (hruntime : unit.runtime = facts.runtime)
    (he : e ∈ Naming.linkable facts unit.root) :
    e.accessName facts.runtime = some (unit.publicName facts.registry e.name) := by
  obtain ⟨-, -, -, -, hused⟩ := Naming.mem_linkable_iff.mp he
  obtain ⟨access, haccess⟩ := Option.isSome_iff_exists.mp hused
  rw [publicName, Naming.export?_of_mem_linkable he, Option.bind_some, hruntime, haccess,
    Option.getD_some]

/-- Where the access names of the root are distinct, publishing loses no definition. -/
theorem find?_definitions_iff (hmap : unit.exportMap? unit.root = some map)
    (hruntime : unit.runtime = facts.runtime)
    (hkeys : ∀ name ∈ map.keys, ∃ e ∈ Naming.linkable facts unit.root, e.name = name)
    (hdistinct : ((Naming.linkable facts unit.root).map fun e =>
      e.accessName facts.runtime).Nodup) {access : String} {reference : Reference} :
    (unit.definitions facts.registry).find? access = some reference ↔
      ∃ e ∈ Naming.linkable facts unit.root, e.accessName facts.runtime = some access ∧
        map.find? e.name = some reference := by
  have hdefinitions : unit.definitions facts.registry = OrderedMap.ofList
      (map.entries.map fun entry => (unit.publicName facts.registry entry.1, entry.2)) := by
    rw [definitions, hmap]
    rfl
  have hnodup : ((map.entries.map fun entry =>
      (unit.publicName facts.registry entry.1, entry.2)).map Prod.fst).Nodup := by
    have hkeysNodup : (map.keys.map (unit.publicName facts.registry)).Nodup := by
      refine List.Nodup.map_on (fun first hfirst second hsecond heq => ?_) map.nodup_keys
      obtain ⟨one, hone, rfl⟩ := hkeys first hfirst
      obtain ⟨other, hother, rfl⟩ := hkeys second hsecond
      refine congrArg Export.name (List.inj_on_of_nodup_map hdistinct hone hother ?_)
      rw [accessName_eq_publicName hruntime hone, accessName_eq_publicName hruntime hother, heq]
    rw [OrderedMap.keys, List.map_map] at hkeysNodup
    rw [List.map_map]
    exact hkeysNodup
  rw [hdefinitions, OrderedMap.find?_eq_some_iff, OrderedMap.entries_ofList_of_nodup hnodup,
    List.mem_map]
  constructor
  · rintro ⟨⟨name, found⟩, hentry, heq⟩
    obtain ⟨rfl, rfl⟩ := Prod.mk.inj heq
    obtain ⟨e, he, rfl⟩ := hkeys name (List.mem_map_of_mem (f := Prod.fst) hentry)
    exact ⟨e, he, accessName_eq_publicName hruntime he, OrderedMap.find?_eq_some_iff.mpr hentry⟩
  · rintro ⟨e, he, haccess, hfind⟩
    rw [accessName_eq_publicName hruntime he, Option.some.injEq] at haccess
    exact ⟨(e.name, reference), OrderedMap.find?_eq_some_iff.mp hfind, by rw [haccess]⟩

end Concatenation

namespace Draft

variable {facts : BuildFacts} {module : ModuleId} {e : Export} {access : String}

theorem mem_linkable_of_visible {table : ExportTable}
    (htable : facts.registry.table? module = some table) (he : e ∈ table.declared)
    (hvisible : visibleName? facts module e = some access) : e ∈ Naming.linkable facts module := by
  obtain ⟨hprovided, -, haccess⟩ := visibleName?_eq_some_iff.mp hvisible
  exact Naming.mem_linkable_iff.mpr
    ⟨table, htable, he, hprovided, Option.isSome_iff_exists.mpr ⟨access, haccess⟩⟩

end Draft

/-- An export map of a module with the definitions in which it was published: it has an
entry for each export that can be linked and has a reference, and nothing of it was
lost. -/
structure Publishes (facts : BuildFacts) (merged : List ModuleId) (module : ModuleId)
    (map definitions : ExportMap) : Prop where
  mem_keys_iff : ∀ name, name ∈ map.keys ↔ ∃ e ∈ Naming.linkable facts module, e.name = name ∧
    Naming.HasReference facts merged (facts.registry.resolve ⟨module, e.name⟩)
  find?_iff : ∀ access reference, definitions.find? access = some reference ↔
    ∃ e ∈ Naming.linkable facts module, e.accessName facts.runtime = some access ∧
      map.find? e.name = some reference

namespace Publishes

variable {facts : BuildFacts} {merged : List ModuleId} {module : ModuleId}
  {map definitions : ExportMap} {table : ExportTable} {draft : Draft} {name : String}
  {reference : Reference}

/-- What is known of the code of modules does not matter here. -/
theorem withCode (h : Publishes facts merged module map definitions) (code : CodeTable) :
    Publishes { facts with code } merged module map definitions :=
  ⟨h.mem_keys_iff, h.find?_iff⟩

/-- The entries of the map are in the interface as they stand. -/
theorem mem_exports (h : Publishes facts merged module map definitions)
    (htable : facts.registry.table? module = some table)
    (hcontents : Draft.Contents facts module definitions table.declared draft)
    (hfind : map.find? name = some reference) : (name, reference) ∈ draft.exports := by
  obtain ⟨e, he, rfl, hreference⟩ :=
    (h.mem_keys_iff name).mp (OrderedMap.mem_keys_iff_exists_find?.mpr ⟨reference, hfind⟩)
  obtain ⟨listed, hlisted, hdeclared, hprovided, hused⟩ := Naming.mem_linkable_iff.mp he
  rw [htable, Option.some.injEq] at hlisted
  obtain ⟨access, haccess⟩ := Option.isSome_iff_exists.mp hused
  exact hcontents.mem_exports_of_defined table.nodup_declared_names (hlisted ▸ hdeclared)
    (Draft.visibleName?_eq_some_iff.mpr
      ⟨hprovided, Naming.not_isDangling_of_hasReference hreference, haccess⟩)
    ((h.find?_iff access reference).mpr ⟨e, he, haccess, hfind⟩)

/-- An export in the interface that has no entry in the map has no definition, and no
reference for what it leads to. -/
theorem exists_undefined (h : Publishes facts merged module map definitions)
    (htable : facts.registry.table? module = some table)
    (hcontents : Draft.Contents facts module definitions table.declared draft)
    (hdistinct : ((Naming.linkable facts module).map fun e => e.accessName facts.runtime).Nodup)
    (hentry : (name, reference) ∈ draft.exports) (hnone : map.find? name = none) :
    ∃ e access fresh, facts.registry.export? ⟨module, name⟩ = some e ∧ e.name = name ∧
      Draft.visibleName? facts module e = some access ∧ reference = .identifier fresh ∧
      ⟨fresh, Draft.undefinedInit e access⟩ ∈ draft.aliases ∧
      ¬ Naming.HasReference facts merged (facts.registry.resolve ⟨module, name⟩) := by
  obtain ⟨e, hdeclared, rfl, hstands⟩ := hcontents.standsFor _ hentry
  dsimp only at hstands hnone
  cases hstands with
  | @defined access _ hvisible hdefined =>
    obtain ⟨other, hother, haccess, hfind⟩ := (h.find?_iff access reference).mp hdefined
    have he := Draft.mem_linkable_of_visible htable hdeclared hvisible
    obtain ⟨-, -, hsame⟩ := Draft.visibleName?_eq_some_iff.mp hvisible
    have heq := List.inj_on_of_nodup_map hdistinct hother he (haccess.trans hsame.symm)
    rw [heq, hnone] at hfind
    exact absurd hfind.symm (Option.some_ne_none _)
  | @undefined access fresh hvisible _ halias =>
    have he := Draft.mem_linkable_of_visible htable hdeclared hvisible
    refine ⟨e, access, fresh, Naming.export?_of_mem_linkable he, rfl, hvisible, rfl, halias, ?_⟩
    intro hreference
    exact OrderedMap.find?_eq_none_iff.mp hnone
      ((h.mem_keys_iff _).mpr ⟨e, he, rfl, hreference⟩)

end Publishes

namespace Concatenation

/-- A concatenation publishes the final export map of its root. -/
theorem publishes_of_build {build : Build} {root : ModuleId} {modules : List ModuleId}
    {unit : Concatenation} {map : ExportMap}
    (hbuild : (Concatenation.build build root modules).value = .ok unit)
    (hmap : unit.exportMap? root = some map)
    (hdistinct : ((Naming.linkable build.toBuildFacts root).map fun e =>
      e.accessName build.runtime).Nodup) :
    Publishes build.toBuildFacts unit.modules root map (unit.definitions build.registry) := by
  have hkeys : ∀ name, name ∈ map.keys ↔ ∃ e ∈ Naming.linkable build.toBuildFacts root,
      e.name = name ∧ Naming.HasReference build.toBuildFacts unit.modules
        (build.registry.resolve ⟨root, e.name⟩) := fun name =>
    mem_keys_exportMap_iff_of_build hbuild hmap
  obtain rfl := root_of_build hbuild
  have hruntime := runtime_of_build hbuild
  refine ⟨hkeys, fun access reference => find?_definitions_iff hmap hruntime ?_ hdistinct⟩
  intro name hname
  obtain ⟨e, he, hsame, -⟩ := (hkeys name).mp hname
  exact ⟨e, he, hsame⟩

end Concatenation

namespace Build

variable {build : Build} {root : ModuleId} {members : List ModuleId} {linked : LinkedLibrary}

/-- The value of an export for which no definition was published: its constant, or the
property of the exports object under its access name. -/
def valueOf (e : Export) (access : String) : String :=
  e.constant.elim (exportsObject ++ Quoted.property access) Literal.source

theorem undefinedInit_eq_valueOf (e : Export) (access : String) :
    Draft.undefinedInit e access = valueOf e access := by
  rw [Draft.undefinedInit, valueOf]
  cases e.constant with
  | none => rfl
  | some literal => rfl

theorem only_of_ofOptions {options : LibraryOptions} {library : Library}
    (honly : options.restriction.bind Restriction.first? = none)
    (h : Library.ofOptions options = .ok library) : library.only = none := by
  rw [Library.ofOptions] at h
  split at h
  · exact absurd h (by simp)
  · rw [← Except.ok.inj h]
    exact honly

/-- The interface shows the final export map of the unit.  Where the access names of the
root are distinct, every entry of that map is in it as it stands.  Any other export in it
is bound to a new alias of its value, and following it leads to a default export that is
not provided, or to an export of a member that is not listed there or not used. -/
theorem linked_exports (honly : build.configuration.library.restriction.bind
      Restriction.first? = none)
    (hdistinct : ((Naming.linkable build.toBuildFacts root).map fun e =>
      e.accessName build.runtime).Nodup)
    (hmembers : members ≠ []) (hlink : (build.link root members).result = .ok linked) :
    ∃ library unit map interface, Library.ofOptions build.configuration.library = .ok library ∧
      (Concatenation.build build root members).value = .ok unit ∧
      unit.exportMap? root = some map ∧
      (Interface.plan (build.publish unit (unit.definitions build.registry)) library root
        (some unit)).value = .ok interface ∧
      linked.code = importSource (unit.members.values.flatMap Member.imports) ++
        interface.source ∧
      (interface.exports.map Prod.fst).Nodup ∧ interface.introduced.Nodup ∧
      (∀ name reference, map.find? name = some reference →
        (name, reference) ∈ interface.exports) ∧
      ∀ name reference, (name, reference) ∈ interface.exports → map.find? name = none →
        (∃ e access fresh, build.registry.export? ⟨root, name⟩ = some e ∧
          e.accessName build.runtime = some access ∧ reference = .identifier fresh ∧
          fresh ∉ unit.scope.names ∧ ⟨fresh, valueOf e access⟩ ∈ interface.aliases) ∧
        ((∃ site, build.registry.resolve ⟨root, name⟩ = .missing site ∧ site.name = "default") ∨
          ∃ site, build.registry.resolve ⟨root, name⟩ = .origin site ∧
            site.module ∈ unit.modules ∧ ∀ e, build.registry.export? site = some e →
              e.accessName build.runtime = none) := by
  obtain ⟨library, unit, interface, hlibrary, -, hbuild, hplan, hlinked, -⟩ :=
    exists_of_link_eq_ok hmembers hlink
  obtain ⟨table, htable, hshows⟩ := Interface.exists_shows_of_plan_eq_ok hplan
  obtain ⟨hmem, -, -⟩ := Concatenation.exists_of_build_eq_ok hbuild
  obtain rfl := Concatenation.root_of_build hbuild
  have hroot : unit.root ∈ unit.modules := by
    rw [Concatenation.modules_of_build hbuild, UniqueList.mem_toList, UniqueList.mem_ofList]
    exact hmem
  obtain ⟨map, hmap⟩ := Concatenation.exists_exportMap_of_mem hroot
  have hpublishes := (Concatenation.publishes_of_build hbuild hmap hdistinct).withCode
    (build.publish unit (unit.definitions build.registry)).code
  have hselected : library.selected table = table.declared := by
    rw [Library.selected, only_of_ofOptions honly hlibrary]
  have hcontents := Interface.contents_draftFrom
    (build.publish unit (unit.definitions build.registry)).toBuildFacts library table unit.root
    unit.scope
  rw [definitionsOf_publish, hselected] at hcontents
  have haccount := Interface.accounted_draftFrom
    (build.publish unit (unit.definitions build.registry)).toBuildFacts library table unit.root
    unit.scope
  refine ⟨library, unit, map, interface, hlibrary, hbuild, hmap, hplan,
    congrArg LinkedLibrary.code hlinked, ?_, ?_, ?_, ?_⟩
  · rw [hshows.exports_eq]
    refine hcontents.names_eq.symm ▸ ?_
    exact table.nodup_declared_names.sublist (List.filter_sublist.map Export.name)
  · rw [hshows.introduced_eq]
    exact haccount.nodup_introduced
  · intro name reference hfind
    rw [hshows.exports_eq]
    exact hpublishes.mem_exports htable hcontents hfind
  · intro name reference hentry hnone
    rw [hshows.exports_eq] at hentry
    obtain ⟨e, access, fresh, hexport, rfl, hvisible, rfl, halias, hreference⟩ :=
      hpublishes.exists_undefined htable hcontents hdistinct hentry hnone
    obtain ⟨-, hdangling, haccess⟩ := Draft.visibleName?_eq_some_iff.mp hvisible
    refine ⟨⟨e, access, fresh, hexport, haccess, rfl, ?_, ?_⟩,
      Naming.exists_unused_origin_of_not_hasReference hdangling hreference⟩
    · exact haccount.introduced_notMem
        (List.mem_append_left _ (List.mem_map_of_mem (f := AliasDeclaration.name) halias))
    · rw [hshows.aliases_eq, ← undefinedInit_eq_valueOf]
      exact halias

/-- A build with a tap that rewrites all references.  The root exports a declaration and
re-exports from the other member something that the runtime does not use there, and a constant
behind a default export that is not there. -/
def wrappingBuild : Build :=
  let wrap : MapTap := {
    name := "wrap"
    run := fun _ map member => pure (member,
      .ok (.replace (map.mapValues fun name _ => .expression ("wrapped." ++ name)))) }
  { (Build.empty default).addMapTap wrap with
    registry := ExportRegistry.ofEdits [.register ⟨0⟩ "./index.js", .register ⟨1⟩ "./util.js",
      .addExport ⟨1⟩ ⟨"hidden", .provided, OrderedMap.ofList [("main", .unused)], none, none⟩,
      .addExport ⟨1⟩ ⟨"default", .notProvided, ∅, none, none⟩,
      .addExport ⟨0⟩ ⟨"value", .provided, ∅, none, none⟩,
      .addExport ⟨0⟩ ⟨"hidden", .provided, ∅, some ⟨⟨1⟩, some "hidden"⟩, none⟩,
      .addExport ⟨0⟩ ⟨"version", .provided, ∅, some ⟨⟨1⟩, some "default"⟩,
        some (.text "2.1.0")⟩]
    code := (∅ : CodeTable).edit ⟨0⟩ "main" fun code =>
      { code with declarations := UniqueList.ofList ["value"] } }

/-- The code that `wrappingBuild` is linked to. -/
def wrappingCode : String :=
  "const __scopelink_exports__value = wrapped.value;\n" ++
    "const __scopelink_exports__hidden = __scopelink_exports__.hidden;\n" ++
    "const __scopelink_exports__version = \"2.1.0\";\n" ++
    "export \x7b __scopelink_exports__value as value, " ++
    "__scopelink_exports__hidden as hidden, " ++
    "__scopelink_exports__version as version \x7d;\n"

/-- The interface shows what the tap made of the declaration.  Of the exports that nothing merged
stands behind, one is read from the exports object, and the other one is written as its
constant. -/
theorem linked_exports_wrapping :
    ∃ linked, (wrappingBuild.link ⟨0⟩ [⟨0⟩, ⟨1⟩]).result = .ok linked ∧
      linked.code = wrappingCode ∧
      ∃ (unit : Concatenation) (map : ExportMap) (interface : Interface),
        (Concatenation.build wrappingBuild ⟨0⟩ [⟨0⟩, ⟨1⟩]).value = .ok unit ∧
        unit.exportMap? ⟨0⟩ = some map ∧
        map.entries = [("value", .expression "wrapped.value")] ∧
        linked.code = importSource (unit.members.values.flatMap Member.imports) ++
          interface.source ∧
        interface.aliases = [⟨"__scopelink_exports__value", "wrapped.value"⟩,
          ⟨"__scopelink_exports__hidden", "__scopelink_exports__.hidden"⟩,
          ⟨"__scopelink_exports__version", "\"2.1.0\""⟩] ∧
        (∀ name reference, map.find? name = some reference →
          (name, reference) ∈ interface.exports) ∧
        ∀ name reference, (name, reference) ∈ interface.exports → map.find? name = none →
          ∃ e access fresh, wrappingBuild.registry.export? ⟨⟨0⟩, name⟩ = some e ∧
            e.accessName wrappingBuild.runtime = some access ∧ reference = .identifier fresh ∧
            fresh ∉ unit.scope.names ∧ ⟨fresh, valueOf e access⟩ ∈ interface.aliases := by
  obtain ⟨linked, hlink, hcode⟩ := exists_eq_ok_of_map_toOption
    (wrappingBuild.link ⟨0⟩ [⟨0⟩, ⟨1⟩]).result LinkedLibrary.code (y := wrappingCode)
    (by decide +kernel)
  obtain ⟨library, unit, map, interface, hlibrary, hbuild, hmap, hplan, hsource, -, -, hshown,
    hother⟩ := linked_exports rfl (by decide) (List.cons_ne_nil _ _) hlink
  have hread : (Concatenation.build wrappingBuild ⟨0⟩ [⟨0⟩, ⟨1⟩]).value.toOption.map (fun unit =>
      ((unit.exportMap? ⟨0⟩).map OrderedMap.entries,
        (Interface.plan (wrappingBuild.publish unit (unit.definitions wrappingBuild.registry))
          ⟨none⟩ ⟨0⟩ (some unit)).value.toOption.map Interface.aliases)) =
        some (some [("value", .expression "wrapped.value")],
          some [⟨"__scopelink_exports__value", "wrapped.value"⟩,
            ⟨"__scopelink_exports__hidden", "__scopelink_exports__.hidden"⟩,
            ⟨"__scopelink_exports__version", "\"2.1.0\""⟩]) := by decide +kernel
  obtain rfl : ⟨none⟩ = library := Except.ok.inj hlibrary
  rw [hbuild] at hread
  obtain ⟨hentries, haliases⟩ := Prod.mk.inj (Option.some.inj hread)
  rw [hmap] at hentries
  rw [hplan] at haliases
  exact ⟨linked, hlink, hcode, unit, map, interface, hbuild, hmap, Option.some.inj hentries,
    hsource, Option.some.inj haliases, hshown,
    fun name reference hentry hnone => (hother name reference hentry hnone).1⟩

end Build

end ModuleLinker
