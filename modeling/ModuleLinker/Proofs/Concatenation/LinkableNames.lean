import ModuleLinker.Proofs.Concatenation.Tapping
import ModuleLinker.Proofs.Exports.Histories

/-!
# The names in the export maps

An export of a member has an entry in the final export map if it is provided and used and
means something in the merged scope.  That takes three decisions which are made apart from
each other: what following the export comes to, whether the module of its origin is merged
too, and whether the runtime uses what is listed there.  Taps cannot change the outcome, and
unless one of them reorders the entries, they stand as the exports were declared.
-/

namespace ModuleLinker

/-! ## Which exports have an entry -/

/-- An export of a member means something in the merged scope. -/
inductive Links (facts : BuildFacts) (merged : List ModuleId) (module : ModuleId) (e : Export) :
    Prop
  /-- It does not forward. -/
  | own (hown : e.isForwarding = false) : Links facts merged module e
  | wholeModule {other : ModuleId}
      (hresolve : facts.registry.resolve ⟨module, e.name⟩ = .namespaceOf other) :
      Links facts merged module e
  | outside {site : ExportSite}
      (hresolve : facts.registry.resolve ⟨module, e.name⟩ = .origin site)
      (houtside : site.module ∉ merged) : Links facts merged module e
  /-- Its origin is listed by a member and used. -/
  | inside {site : ExportSite} {origin : Export}
      (hresolve : facts.registry.resolve ⟨module, e.name⟩ = .origin site)
      (hinside : site.module ∈ merged) (horigin : facts.registry.export? site = some origin)
      (hused : (origin.accessName facts.runtime).isSome = true) : Links facts merged module e

/-- Why an export of a member has no entry. -/
inductive Unlinked (facts : BuildFacts) (merged : List ModuleId) (module : ModuleId)
    (e : Export) : Prop
  | notProvided (hprovision : e.provision ≠ .provided) : Unlinked facts merged module e
  | unused (hunused : e.accessName facts.runtime = none) : Unlinked facts merged module e
  | dangling {site : ExportSite}
      (hresolve : facts.registry.resolve ⟨module, e.name⟩ = .missing site) :
      Unlinked facts merged module e
  | unknown {site : ExportSite}
      (hresolve : facts.registry.resolve ⟨module, e.name⟩ = .undetermined site) :
      Unlinked facts merged module e
  | circular {site : ExportSite}
      (hresolve : facts.registry.resolve ⟨module, e.name⟩ = .circular site) :
      Unlinked facts merged module e
  | unlistedOrigin {site : ExportSite}
      (hresolve : facts.registry.resolve ⟨module, e.name⟩ = .origin site)
      (hinside : site.module ∈ merged) (hnone : facts.registry.export? site = none) :
      Unlinked facts merged module e
  | unusedOrigin {site : ExportSite} {origin : Export}
      (hresolve : facts.registry.resolve ⟨module, e.name⟩ = .origin site)
      (hinside : site.module ∈ merged) (horigin : facts.registry.export? site = some origin)
      (hunused : origin.accessName facts.runtime = none) : Unlinked facts merged module e

namespace Naming

variable {facts : BuildFacts} {merged : List ModuleId} {module : ModuleId} {e : Export}

/-- What has a reference is what means something. -/
theorem hasReference_iff_links (he : e ∈ linkable facts module) :
    HasReference facts merged (facts.registry.resolve ⟨module, e.name⟩) ↔
      Links facts merged module e := by
  constructor
  · intro href
    cases hresolve : facts.registry.resolve ⟨module, e.name⟩ with
    | origin site =>
      rw [hresolve, hasReference_origin_iff hresolve] at href
      by_cases hinside : site.module ∈ merged
      · obtain ⟨origin, horigin, hused⟩ := href hinside
        exact .inside hresolve hinside horigin hused
      · exact .outside hresolve hinside
    | namespaceOf other => exact .wholeModule hresolve
    | missing site =>
      rw [hresolve] at href
      exact False.elim href
    | undetermined site =>
      rw [hresolve] at href
      exact False.elim href
    | circular site =>
      rw [hresolve] at href
      exact False.elim href
  · intro hlinks
    cases hlinks with
    | own hown =>
      rw [resolve_of_mem_linkable he hown]
      exact fun _ => ⟨e, he, hown, rfl⟩
    | wholeModule hresolve =>
      rw [hresolve]
      trivial
    | outside hresolve houtside =>
      rw [hresolve]
      exact fun hinside => absurd hinside houtside
    | inside hresolve hinside horigin hused =>
      rw [hresolve, hasReference_origin_iff hresolve]
      exact fun _ => ⟨_, horigin, hused⟩

theorem not_hasReference_of_unlinked (he : e ∈ linkable facts module)
    (h : Unlinked facts merged module e) :
    ¬ HasReference facts merged (facts.registry.resolve ⟨module, e.name⟩) := by
  intro href
  obtain ⟨-, -, -, hprovided, hused⟩ := mem_linkable_iff.mp he
  cases h with
  | notProvided hprovision => exact hprovision hprovided
  | unused hunused => exact absurd (hunused ▸ hused) (by simp)
  | dangling hresolve =>
    rw [hresolve] at href
    exact href
  | unknown hresolve =>
    rw [hresolve] at href
    exact href
  | circular hresolve =>
    rw [hresolve] at href
    exact href
  | unlistedOrigin hresolve hinside hnone =>
    rw [hresolve, hasReference_origin_iff hresolve] at href
    obtain ⟨origin, horigin, -⟩ := href hinside
    exact absurd (hnone.symm.trans horigin) (by simp)
  | unusedOrigin hresolve hinside horigin hunused =>
    rw [hresolve, hasReference_origin_iff hresolve] at href
    obtain ⟨found, hfound, hused⟩ := href hinside
    rw [← Option.some.inj (horigin.symm.trans hfound), hunused] at hused
    exact absurd hused (by simp)

theorem unlinked_of_not_hasReference
    (h : ¬ HasReference facts merged (facts.registry.resolve ⟨module, e.name⟩)) :
    Unlinked facts merged module e := by
  cases hresolve : facts.registry.resolve ⟨module, e.name⟩ with
  | origin site =>
    rw [hresolve, hasReference_origin_iff hresolve, Classical.not_imp] at h
    cases horigin : facts.registry.export? site with
    | none => exact .unlistedOrigin hresolve h.1 horigin
    | some origin =>
      cases haccess : origin.accessName facts.runtime with
      | none => exact .unusedOrigin hresolve h.1 horigin haccess
      | some access => exact absurd ⟨origin, horigin, by rw [haccess]; rfl⟩ h.2
  | namespaceOf other =>
    rw [hresolve] at h
    exact absurd trivial h
  | missing site => exact .dangling hresolve
  | undetermined site => exact .unknown hresolve
  | circular site => exact .circular hresolve

/-- The reasons against an entry are all there are. -/
theorem unlinked_iff {table : ExportTable} (htable : facts.registry.table? module = some table)
    (hdeclared : e ∈ table.declared) : Unlinked facts merged module e ↔
      ¬ (e ∈ linkable facts module ∧
        HasReference facts merged (facts.registry.resolve ⟨module, e.name⟩)) := by
  constructor
  · rintro hunlinked ⟨he, href⟩
    exact not_hasReference_of_unlinked he hunlinked href
  · intro hnot
    by_cases hprovided : e.provision = .provided
    · cases haccess : e.accessName facts.runtime with
      | none => exact .unused haccess
      | some access =>
        have he : e ∈ linkable facts module :=
          mem_linkable_iff.mpr ⟨table, htable, hdeclared, hprovided, by rw [haccess]; rfl⟩
        exact unlinked_of_not_hasReference fun href => hnot ⟨he, href⟩
    · exact .notProvided hprovided

end Naming

/-! ## The order of the entries -/

namespace MapTap

/-- A tap that answers for a module with the names that it was given keeps them in their
order. -/
def KeepsOrder (tap : MapTap) (module : ModuleId) : Prop :=
  ∀ map member after answer, (tap.run module map member).value = (after, .ok (.replace answer)) →
    answer.keys.Perm map.keys → answer.keys = map.keys

/-- A run of taps none of which reorders the entries leaves them in their order. -/
theorem keys_of_runAll_eq_ok {module : ModuleId} {taps : List MapTap}
    (htaps : ∀ tap ∈ taps, tap.KeepsOrder module) {current rewritten : Rewritten}
    {member after : Member}
    (h : (runAll module taps current member).value = (after, .ok rewritten)) :
    rewritten.map.keys = current.map.keys := by
  apply runAll_induction (p := fun map => map.keys = current.map.keys) _ h rfl
  intro tap htap map member after answer hrun hperm hsame
  exact (htaps tap htap map member after answer hrun hperm).trans hsame

end MapTap

/-- Rebinding answers with the map that it was given. -/
theorem Rebinding.keepsOrder_tap (module : ModuleId) : Rebinding.tap.KeepsOrder module := by
  intro map member after answer hrun _
  obtain ⟨-, hanswer⟩ := Prod.mk.inj hrun
  have hreplace := Except.ok.inj hanswer
  split at hreplace
  · exact MapAnswer.noConfusion hreplace
  · rw [MapAnswer.replace.inj hreplace]

namespace Concatenation

variable {build : Build} {root : ModuleId} {modules : List ModuleId} {unit : Concatenation}
  {module : ModuleId} {map : ExportMap}

/-- If no tap reorders the entries of a member, its final export map has them in the order of
its exports. -/
theorem keys_exportMap_sublist_of_build
    (h : (Concatenation.build build root modules).value = .ok unit)
    (hmap : unit.exportMap? module = some map)
    (htaps : ∀ tap ∈ build.extensions.mapTaps, tap.KeepsOrder module) :
    map.keys.Sublist ((Naming.linkable build.toBuildFacts module).map Export.name) := by
  obtain ⟨-, -, entries, rewritten, htapped, rfl⟩ := exists_of_build_eq_ok h
  obtain ⟨after, hafter, rfl⟩ := Option.map_eq_some_iff.mp hmap
  obtain ⟨member, hmember, tapped, last, hrun, heq⟩ := exists_run_of_tapMembers_eq_ok htapped
    (OrderedMap.mem_of_mem_entries_ofList (OrderedMap.find?_eq_some_iff.mp hafter))
  obtain ⟨rfl, rfl⟩ := Prod.mk.inj heq
  have hkeys : last.map.keys = member.exportMap.keys := MapTap.keys_of_runAll_eq_ok htaps hrun
  rw [hkeys]
  exact NamedMembers.keys_exportMap_sublist hmember

/-- The names in the final export map of a module, whatever the taps made of it. -/
structure MapsNames (facts : BuildFacts) (merged : List ModuleId) (module : ModuleId)
    (table : ExportTable) (map : ExportMap) : Prop where
  mem_keys_iff : ∀ name, name ∈ map.keys ↔ ∃ e ∈ table.declared, e.name = name ∧
    e.provision = .provided ∧ (e.accessName facts.runtime).isSome = true ∧
      Links facts merged module e
  notMem_keys_iff : ∀ e ∈ table.declared,
    e.name ∉ map.keys ↔ Unlinked facts merged module e

theorem mapsNames_of_build (h : (Concatenation.build build root modules).value = .ok unit)
    (hmap : unit.exportMap? module = some map) {table : ExportTable}
    (htable : build.registry.table? module = some table) :
    MapsNames build.toBuildFacts unit.modules module table map where
  mem_keys_iff name := by
    rw [mem_keys_exportMap_iff_of_build h hmap]
    constructor
    · rintro ⟨e, he, rfl, href⟩
      obtain ⟨listed, hlisted, hdeclared, hprovided, hused⟩ := Naming.mem_linkable_iff.mp he
      obtain rfl := Option.some.inj (htable.symm.trans hlisted)
      exact ⟨e, hdeclared, rfl, hprovided, hused, (Naming.hasReference_iff_links he).mp href⟩
    · rintro ⟨e, hdeclared, rfl, hprovided, hused, hlinks⟩
      have he : e ∈ Naming.linkable build.toBuildFacts module :=
        Naming.mem_linkable_iff.mpr ⟨table, htable, hdeclared, hprovided, hused⟩
      exact ⟨e, he, rfl, (Naming.hasReference_iff_links he).mpr hlinks⟩
  notMem_keys_iff e hdeclared := by
    rw [Naming.unlinked_iff htable hdeclared, mem_keys_exportMap_iff_of_build h hmap]
    apply not_congr
    constructor
    · rintro ⟨other, hother, hname, href⟩
      have hsame := Naming.export?_of_mem_linkable hother
      rw [hname, ExportRegistry.export?, htable, Option.bind_some,
        ExportTable.find?_of_mem_declared hdeclared] at hsame
      rw [Option.some.inj hsame]
      exact ⟨hother, href⟩
    · rintro ⟨he, href⟩
      exact ⟨e, he, rfl, href⟩

/-- The members of a concatenation that is built are the listed modules, each once.  All of
them are registered, and each has a final export map with exactly the names of the exports
that are provided and used and mean something in the merged scope.  Unless a tap reorders
the entries of the member, they stand in the order in which the exports were declared. -/
theorem exportMap_names_linkable
    (h : (Concatenation.build build root modules).value = .ok unit) :
    unit.modules = (UniqueList.ofList modules).toList ∧
      ∀ module ∈ unit.modules, ∃ table map, build.registry.table? module = some table ∧
        unit.exportMap? module = some map ∧
        MapsNames build.toBuildFacts unit.modules module table map ∧
        ((∀ tap ∈ build.extensions.mapTaps, tap.KeepsOrder module) →
          map.keys.Sublist (table.declared.map Export.name)) := by
  have hmodules := modules_of_build h
  refine ⟨hmodules, fun module hmodule => ?_⟩
  obtain ⟨map, hmap⟩ := exists_exportMap_of_mem hmodule
  obtain ⟨table, htable⟩ : ∃ table, build.registry.table? module = some table := by
    rw [hmodules, UniqueList.mem_toList, UniqueList.mem_ofList] at hmodule
    obtain ⟨-, hregistered, -⟩ := exists_of_build_eq_ok h
    exact OrderedMap.mem_keys_iff_exists_find?.mp
      (OrderedMap.contains_iff.mp (hregistered module hmodule))
  refine ⟨table, map, htable, hmap, mapsNames_of_build h hmap htable, fun htaps => ?_⟩
  have hdeclared : ((Naming.linkable build.toBuildFacts module).map Export.name).Sublist
      (table.declared.map Export.name) := by
    rw [Naming.linkable, htable]
    exact List.filter_sublist.map Export.name
  exact (keys_exportMap_sublist_of_build h hmap htaps).trans hdeclared

/-- A build whose root has exports of all kinds: one of its own, one that is not used, and
re-exports of a namespace, of a module outside, of an export that the other member uses, of
one that it does not use, of one that nobody lists, and of themselves. -/
def mixedNamesBuild : Build :=
  let own (name : String) : Export := ⟨name, .provided, ∅, none, none⟩
  let unused (name : String) : Export :=
    { own name with usage := OrderedMap.ofList [("main", .unused)] }
  let again (name : String) (module : ModuleId) : Export :=
    { own name with forward := some ⟨module, some name⟩ }
  { (Build.empty default).addMapTap Rebinding.tap with
    registry := ExportRegistry.ofEdits [.register ⟨0⟩ "./index.js", .register ⟨1⟩ "./util.js",
      .addExport ⟨0⟩ (again "hidden" ⟨1⟩), .addExport ⟨0⟩ (again "read" ⟨2⟩),
      .addExport ⟨0⟩ (unused "idle"),
      .addExport ⟨0⟩ { own "util" with forward := some ⟨⟨1⟩, none⟩ },
      .addExport ⟨0⟩ (again "round" ⟨0⟩), .addExport ⟨0⟩ (again "lost" ⟨1⟩),
      .addExport ⟨0⟩ (again "join" ⟨1⟩), .addExport ⟨0⟩ (own "value"),
      .addExport ⟨1⟩ (unused "hidden"), .addExport ⟨1⟩ (own "join")] }

/-- Four of the eight exports of the root have entries, in the order of their declaration. -/
theorem exportMap_names_linkable_mixed :
    ∃ unit, (Concatenation.build mixedNamesBuild ⟨0⟩ [⟨0⟩, ⟨1⟩, ⟨0⟩]).value = .ok unit ∧
      unit.modules = [⟨0⟩, ⟨1⟩] ∧
      ∃ table map, unit.exportMap? ⟨0⟩ = some map ∧
        map.keys = ["read", "util", "join", "value"] ∧
        MapsNames mixedNamesBuild.toBuildFacts unit.modules ⟨0⟩ table map ∧
        map.keys.Sublist (table.declared.map Export.name) := by
  obtain ⟨unit, hbuild, hkeys⟩ := exists_eq_ok_of_map_toOption
    (Concatenation.build mixedNamesBuild ⟨0⟩ [⟨0⟩, ⟨1⟩, ⟨0⟩]).value
    (fun unit => (unit.exportMap? ⟨0⟩).map OrderedMap.keys)
    (y := some ["read", "util", "join", "value"]) (by decide)
  obtain ⟨hmodules, hmaps⟩ := exportMap_names_linkable hbuild
  obtain ⟨table, map, -, hmap, hnames, horder⟩ := hmaps ⟨0⟩ (by rw [hmodules]; decide)
  rw [hmap, Option.map_some, Option.some.injEq] at hkeys
  refine ⟨unit, hbuild, hmodules.trans (by decide), table, map, hmap, hkeys, hnames, horder ?_⟩
  intro tap htap
  rw [List.mem_singleton.mp htap]
  exact Rebinding.keepsOrder_tap ⟨0⟩

end Concatenation

end ModuleLinker
