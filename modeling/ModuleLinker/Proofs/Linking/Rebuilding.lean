import ModuleLinker.Proofs.Concatenation.Fingerprint
import ModuleLinker.Proofs.Imports.Rebinding
import ModuleLinker.Proofs.Linking.Publishing
import ModuleLinker.Proofs.Naming.Renaming

/-!
# Merging again what was published

After a concatenation was published, the code facts of its members spell their imports as
the concatenation named them, and nothing else that merging looks at has changed.  If
rebinding changed no import, merging the same members again gives the same concatenation.
If the renamed imports are nothing but imports, it gives one with the same scope, the same
export maps and the same imports.
-/

namespace ModuleLinker

/-- Lists that are related entry by entry have one image if related entries have. -/
theorem map_eq_of_forall₂ {α β γ : Type} {r : α → β → Prop} {f : α → γ} {g : β → γ}
    {items : List α} {others : List β} (h : List.Forall₂ r items others)
    (hfg : ∀ item ∈ items, ∀ other ∈ others, r item other → g other = f item) :
    others.map g = items.map f := by
  induction h with
  | nil => rfl
  | cons hhead _ ih =>
    rw [List.map_cons, List.map_cons, hfg _ List.mem_cons_self _ List.mem_cons_self hhead,
      ih fun item hitem other hother =>
        hfg item (List.mem_cons_of_mem _ hitem) other (List.mem_cons_of_mem _ hother)]

namespace Concatenation

/-- A concatenation whose imports are settled: each of them is bound under the new name of
its own binding, and one that got another name by it is no declaration, and no export is
backed by either of its names. -/
structure Settled (facts : BuildFacts) (unit : Concatenation) : Prop where
  owned : ∀ member ∈ unit.members.values,
    ∀ specifier ∈ (facts.codeOf member.module).importSpecifiers,
      importOwner facts unit member.module specifier = .topLevel member.module specifier.binding
  renamed : ∀ member ∈ unit.members.values,
    ∀ binding ∈ (facts.codeOf member.module).importBindings, ∀ name,
      member.localNames.find? binding = some name → name ≠ binding →
        binding ∉ (facts.codeOf member.module).declarations ∧
          ∀ e ∈ Naming.linkable facts member.module, e.isForwarding = false →
            (facts.codeOf member.module).backingOf e.name ≠ binding ∧
              (facts.codeOf member.module).backingOf e.name ≠ name

instance (facts : BuildFacts) (unit : Concatenation) : Decidable (unit.Settled facts) :=
  decidable_of_iff
    ((∀ member ∈ unit.members.values,
        ∀ specifier ∈ (facts.codeOf member.module).importSpecifiers,
          importOwner facts unit member.module specifier =
            .topLevel member.module specifier.binding) ∧
      ∀ member ∈ unit.members.values,
        ∀ binding ∈ (facts.codeOf member.module).importBindings,
          ∀ name ∈ member.localNames.find? binding, name ≠ binding →
            binding ∉ (facts.codeOf member.module).declarations ∧
              ∀ e ∈ Naming.linkable facts member.module, e.isForwarding = false →
                (facts.codeOf member.module).backingOf e.name ≠ binding ∧
                  (facts.codeOf member.module).backingOf e.name ≠ name)
    ⟨fun h => ⟨h.1, h.2⟩, fun h => ⟨h.owned, h.renamed⟩⟩

/-- What linking reads off a member: its module, its export map and its imports. -/
def shownMembers (unit : Concatenation) : List (ModuleId × ExportMap × List ImportStatement) :=
  unit.members.entries.map fun entry => (entry.1, entry.2.exportMap, entry.2.imports)

/-- Two concatenations that linking cannot tell apart, but for the report of changes. -/
structure Looks (first second : Concatenation) : Prop where
  root_eq : second.root = first.root
  runtime_eq : second.runtime = first.runtime
  scope_eq : second.scope = first.scope
  shownMembers_eq : second.shownMembers = first.shownMembers

namespace Looks

variable {first second : Concatenation}

theorem refl (unit : Concatenation) : Looks unit unit := ⟨rfl, rfl, rfl, rfl⟩

theorem exportMaps_eq (h : Looks first second) : second.exportMaps = first.exportMaps := by
  have hshown (unit : Concatenation) :
      unit.exportMaps = unit.shownMembers.map fun shown => (shown.1, shown.2.1) := by
    rw [exportMaps, shownMembers, List.map_map]
    rfl
  rw [hshown, hshown, h.shownMembers_eq]

theorem definitions_eq (h : Looks first second) (registry : ExportRegistry) :
    second.definitions registry = first.definitions registry :=
  definitions_eq_of_exportMaps_eq h.root_eq h.runtime_eq h.exportMaps_eq registry

theorem fingerprint_eq (h : Looks first second) : second.fingerprint = first.fingerprint :=
  fingerprint_eq_of_exportMaps_eq h.exportMaps_eq

theorem imports_eq (h : Looks first second) :
    second.members.values.flatMap Member.imports = first.members.values.flatMap Member.imports := by
  have hshown (unit : Concatenation) : unit.members.values.flatMap Member.imports =
      unit.shownMembers.flatMap fun shown => shown.2.2 := by
    rw [shownMembers, OrderedMap.values, List.flatMap_map, List.flatMap_map]
  rw [hshown, hshown, h.shownMembers_eq]

end Looks

variable {build : Build} {root : ModuleId} {modules : List ModuleId} {unit : Concatenation}
  {definitions : ExportMap} {first second : Member}

theorem codeOf_publish (build : Build) (unit : Concatenation) (definitions : ExportMap)
    (module : ModuleId) :
    (build.publish unit definitions).code.get module build.runtime =
      unit.published definitions module (build.toBuildFacts.codeOf module) :=
  (build.get_code_publish unit definitions module build.runtime).trans (if_pos rfl)

/-- The import statements of all members are published where they are read again. -/
theorem importsOf_publish (build : Build) (unit : Concatenation) (definitions : ExportMap) :
    (build.publish unit definitions).importsOf unit.modules =
      unit.members.values.flatMap Member.imports := by
  rw [BuildFacts.importsOf, modules, OrderedMap.keys, OrderedMap.values, List.flatMap_map,
    List.flatMap_map]
  refine List.flatMap_congr fun entry hentry => ?_
  have hcode := codeOf_publish build unit definitions entry.1
  rw [BuildFacts.codeOf, show (build.publish unit definitions).runtime = build.runtime from rfl,
    hcode, published, OrderedMap.find?_eq_some_iff.mpr hentry]
  rfl

theorem toBuildFacts_publish (build : Build) (unit : Concatenation) (definitions : ExportMap) :
    (build.publish unit definitions).toBuildFacts =
      { build.toBuildFacts with code := (build.publish unit definitions).code } := rfl

/-- A member that naming has made is looked up as rebinding leaves it. -/
theorem find?_members_of_build (htaps : build.extensions.mapTaps = [Rebinding.tap])
    (hbuild : (Concatenation.build build root modules).value = .ok unit)
    (hfirst : first ∈
      (NamedMembers.ofModules build.toBuildFacts (UniqueList.ofList modules)).members) :
    unit.members.find? first.module = some (Rebinding.rebound 1 first) := by
  rw [eq_ofNamed_of_build htaps hbuild, OrderedMap.find?_eq_some_iff,
    entries_ofNamed _ _ (NamedMembers.nodup_module_members _ _)]
  exact List.mem_map_of_mem hfirst

/-- The imports of a member are published as rebinding leaves them. -/
theorem imports_publish (htaps : build.extensions.mapTaps = [Rebinding.tap])
    (hbuild : (Concatenation.build build root modules).value = .ok unit)
    (hfirst : first ∈
      (NamedMembers.ofModules build.toBuildFacts (UniqueList.ofList modules)).members)
    (definitions : ExportMap) :
    ((build.publish unit definitions).code.get first.module build.runtime).imports =
      Rebinding.rebindAll first.exportMap first.localNames first.imports := by
  rw [codeOf_publish, published, find?_members_of_build htaps hbuild hfirst]
  rfl

/-! ## Nothing was rebound -/

theorem sameSource_of_not_rewritten (htaps : build.extensions.mapTaps = [Rebinding.tap])
    (hbuild : (Concatenation.build build root modules).value = .ok unit)
    (hkept : unit.rewritten = false) (definitions : ExportMap) (module : ModuleId) :
    Naming.SameSource (build.toBuildFacts.codeOf module)
      ((build.publish unit definitions).code.get module build.runtime) := by
  rw [codeOf_publish]
  refine ⟨rfl, rfl, ?_⟩
  rw [published]
  cases hfind : unit.members.find? module with
  | none => rfl
  | some member =>
    rw [eq_ofNamed_of_build htaps hbuild] at hkept hfind
    rw [OrderedMap.find?_eq_some_iff,
      entries_ofNamed _ _ (NamedMembers.nodup_module_members _ _)] at hfind
    obtain ⟨first, hfirst, heq⟩ := List.mem_map.mp hfind
    obtain ⟨rfl, rfl⟩ := Prod.mk.inj heq
    have hsame : isRebound first = false := by
      have hall := List.any_eq_false.mp hkept first hfirst
      rw [Bool.not_eq_true] at hall
      exact hall
    rw [isRebound, decide_eq_false_iff_not, Classical.not_not] at hsame
    rw [← (NamedMembers.entered_of_mem_members hfirst).imports_eq]
    exact hsame

/-- If rebinding changed nothing, merging again gives the same concatenation. -/
theorem rebuild_of_not_rewritten (htaps : build.extensions.mapTaps = [Rebinding.tap])
    (hbuild : (Concatenation.build build root modules).value = .ok unit)
    (hkept : unit.rewritten = false) (definitions : ExportMap) :
    (Concatenation.build (build.publish unit definitions) root modules).value = .ok unit := by
  obtain ⟨hroot, hregistered, -⟩ := exists_of_build_eq_ok hbuild
  have hagain : (Concatenation.build (build.publish unit definitions) root modules).value =
      .ok (ofNamed root build.runtime (NamedMembers.ofModules
        (build.publish unit definitions).toBuildFacts (UniqueList.ofList modules))) :=
    build_eq_ok (build.publish unit definitions) htaps hroot hregistered
  have hnamed : NamedMembers.ofModules (build.publish unit definitions).toBuildFacts
      (UniqueList.ofList modules) =
        NamedMembers.ofModules build.toBuildFacts (UniqueList.ofList modules) :=
    NamedMembers.ofModules_congr (.withCode build.toBuildFacts _)
      (sameSource_of_not_rewritten htaps hbuild hkept definitions) _
  rw [hagain, hnamed, ← eq_ofNamed_of_build htaps hbuild]

/-! ## All imports are settled -/

theorem rebound_mem_values (htaps : build.extensions.mapTaps = [Rebinding.tap])
    (hbuild : (Concatenation.build build root modules).value = .ok unit)
    (hfirst : first ∈
      (NamedMembers.ofModules build.toBuildFacts (UniqueList.ofList modules)).members) :
    Rebinding.rebound 1 first ∈ unit.members.values :=
  OrderedMap.mem_values_of_find? (find?_members_of_build htaps hbuild hfirst)

/-- A settled import gets the new name of its own binding. -/
theorem Settled.exists_rebind (hsettled : unit.Settled build.toBuildFacts)
    (htaps : build.extensions.mapTaps = [Rebinding.tap])
    (hbuild : (Concatenation.build build root modules).value = .ok unit)
    (hfirst : first ∈
      (NamedMembers.ofModules build.toBuildFacts (UniqueList.ofList modules)).members)
    {specifier : ImportSpecifier}
    (hspecifier : specifier ∈ (build.toBuildFacts.codeOf first.module).importSpecifiers) :
    ∃ name, first.localNames.find? specifier.binding = some name ∧
      Rebinding.rebind first.exportMap first.localNames specifier =
        ⟨specifier.imported, name⟩ := by
  have hall := MapTap.eq_of_mem_of_eq_singleton htaps
  obtain ⟨ledger, haccount⟩ := exists_account_of_build hall hbuild
  have hvalue := rebound_mem_values htaps hbuild hfirst
  obtain ⟨name, hname, -⟩ := exists_localName_of_specifier haccount hvalue hspecifier
  exact ⟨name, hname, (rebind_eq_iff hall hbuild haccount
    (find?_members_of_build htaps hbuild hfirst) hspecifier hname).mpr
      (hsettled.owned _ hvalue specifier hspecifier)⟩

/-- What rebinding makes of the bindings of import statements. -/
theorem flatMap_bindings_rebindAll (map : ExportMap) (localNames : OrderedMap String String)
    (imports : List ImportStatement) :
    (Rebinding.rebindAll map localNames imports).flatMap ImportStatement.bindings =
      (imports.flatMap ImportStatement.specifiers).map fun specifier =>
        (Rebinding.rebind map localNames specifier).binding := by
  rw [Rebinding.rebindAll, List.flatMap_map, List.map_flatMap]
  apply List.flatMap_congr
  intro statement _
  rw [ImportStatement.bindings, Rebinding.rebindStatement, List.map_map]
  rfl

/-- Once settled imports are published, every member spells them as it named them. -/
theorem Settled.respelled (hsettled : unit.Settled build.toBuildFacts)
    (htaps : build.extensions.mapTaps = [Rebinding.tap])
    (hbuild : (Concatenation.build build root modules).value = .ok unit)
    (definitions : ExportMap)
    (hfirst : first ∈
      (NamedMembers.ofModules build.toBuildFacts (UniqueList.ofList modules)).members) :
    Naming.Respelled build.toBuildFacts first
      ((build.publish unit definitions).code.get first.module build.runtime) where
  declarations_eq := by
    rw [codeOf_publish]
    rfl
  backing_eq := by
    rw [codeOf_publish]
    rfl
  importBindings_eq := by
    rw [ModuleCode.importBindings, imports_publish htaps hbuild hfirst,
      flatMap_bindings_rebindAll, (NamedMembers.entered_of_mem_members hfirst).imports_eq,
      ← ModuleCode.map_binding_importSpecifiers, List.map_map, ← ModuleCode.importSpecifiers]
    apply List.map_congr_left
    intro specifier hspecifier
    obtain ⟨name, hname, hrebind⟩ := hsettled.exists_rebind htaps hbuild hfirst hspecifier
    rw [hrebind, Function.comp_apply, hname, Option.getD_some]
  renamed := hsettled.renamed (Rebinding.rebound 1 first)
    (rebound_mem_values htaps hbuild hfirst)

theorem Settled.respelled_of_mem_entered (hsettled : unit.Settled build.toBuildFacts)
    (htaps : build.extensions.mapTaps = [Rebinding.tap])
    (hbuild : (Concatenation.build build root modules).value = .ok unit)
    (definitions : ExportMap) {member : Member}
    (hmember : member ∈
      (NamedMembers.entered build.toBuildFacts (UniqueList.ofList modules)).2) :
    Naming.Respelled build.toBuildFacts member
      ((build.publish unit definitions).code.get member.module build.runtime) := by
  have hmem := List.mem_map_of_mem (f := fun member : Member => (member.module, member.localNames))
    hmember
  rw [← NamedMembers.map_members_ofModules (fun member => (member.module, member.localNames))
    (fun _ _ _ => rfl)] at hmem
  obtain ⟨first, hfirst, heq⟩ := List.mem_map.mp hmem
  exact (hsettled.respelled htaps hbuild definitions hfirst).of_eq heq

/-- Rebinding leaves a settled import as it is when it meets it again. -/
theorem Settled.rebind_rebind (hsettled : unit.Settled build.toBuildFacts)
    (htaps : build.extensions.mapTaps = [Rebinding.tap])
    (hbuild : (Concatenation.build build root modules).value = .ok unit)
    (hfirst : first ∈
      (NamedMembers.ofModules build.toBuildFacts (UniqueList.ofList modules)).members)
    (hmatches : Naming.Matches build.toBuildFacts first second) {specifier : ImportSpecifier}
    (hspecifier : specifier ∈ (build.toBuildFacts.codeOf first.module).importSpecifiers) :
    Rebinding.rebind second.exportMap second.localNames
        (Rebinding.rebind first.exportMap first.localNames specifier) =
      Rebinding.rebind first.exportMap first.localNames specifier := by
  obtain ⟨name, hname, hrebind⟩ := hsettled.exists_rebind htaps hbuild hfirst hspecifier
  have hagain : second.localNames.find? name = some name := by
    by_cases hdeclared : specifier.binding ∈
        (build.toBuildFacts.codeOf first.module).declarations
    · have hbinding : specifier.binding ∈
          (build.toBuildFacts.codeOf first.module).importBindings := by
        rw [← ModuleCode.map_binding_importSpecifiers]
        exact List.mem_map_of_mem hspecifier
      have hsame : name = specifier.binding := by
        by_contra hne
        exact (hsettled.renamed _ (rebound_mem_values htaps hbuild hfirst) specifier.binding
          hbinding name hname hne).1 hdeclared
      rw [← hmatches.respells.keeps _ hdeclared, ← hsame] at hname
      exact hname
    · exact hmatches.respells.renames _ _ hdeclared hname
  rw [hrebind, Rebinding.rebind, ImportSpecifier.mk.injEq]
  refine ⟨rfl, ?_⟩
  rw [Rebinding.finalName?, hmatches.exportMap_eq]
  split
  · rename_i exported hfind
    rw [Rebinding.rebind, Rebinding.finalName?, hfind, ImportSpecifier.mk.injEq] at hrebind
    exact hrebind.2
  · rw [hagain, Option.getD_some]

/-- A member that was made of published code has the imports as they were published, and
rebinding leaves them so. -/
theorem Settled.rebindAll_imports (hsettled : unit.Settled build.toBuildFacts)
    (htaps : build.extensions.mapTaps = [Rebinding.tap])
    (hbuild : (Concatenation.build build root modules).value = .ok unit)
    (hfirst : first ∈
      (NamedMembers.ofModules build.toBuildFacts (UniqueList.ofList modules)).members)
    (hsecond : second ∈ (NamedMembers.ofModules (build.publish unit definitions).toBuildFacts
      (UniqueList.ofList modules)).members)
    (hmatches : Naming.Matches build.toBuildFacts first second) :
    second.imports = Rebinding.rebindAll first.exportMap first.localNames first.imports ∧
      Rebinding.rebindAll second.exportMap second.localNames second.imports = second.imports := by
  have himports : second.imports =
      Rebinding.rebindAll first.exportMap first.localNames first.imports := by
    rw [(NamedMembers.entered_of_mem_members hsecond).imports_eq, hmatches.module_eq]
    exact imports_publish htaps hbuild hfirst definitions
  refine ⟨himports, ?_⟩
  rw [himports, Rebinding.rebindAll, Rebinding.rebindAll, List.map_map]
  apply List.map_congr_left
  intro statement hstatement
  rw [Function.comp_apply, Rebinding.rebindStatement, Rebinding.rebindStatement,
    ImportStatement.mk.injEq, List.map_map]
  refine ⟨rfl, List.map_congr_left fun specifier hspecifier => ?_⟩
  refine hsettled.rebind_rebind htaps hbuild hfirst hmatches (List.mem_flatMap.mpr ?_)
  rw [← (NamedMembers.entered_of_mem_members hfirst).imports_eq]
  exact ⟨statement, hstatement, hspecifier⟩

/-- Named members that match, and whose imports are already as rebinding leaves those of
their counterparts, make concatenations that look the same. -/
theorem looks_ofNamed {facts : BuildFacts} {old new : NamedMembers} (root : ModuleId)
    (runtime : Runtime) (hold : (old.members.map Member.module).Nodup)
    (hnew : (new.members.map Member.module).Nodup) (hscope : new.scope = old.scope)
    (hmatches : List.Forall₂ (Naming.Matches facts) old.members new.members)
    (himports : ∀ first ∈ old.members, ∀ second ∈ new.members,
      Naming.Matches facts first second →
        second.imports = Rebinding.rebindAll first.exportMap first.localNames first.imports ∧
          Rebinding.rebindAll second.exportMap second.localNames second.imports =
            second.imports) :
    Looks (ofNamed root runtime old) (ofNamed root runtime new) ∧
      (ofNamed root runtime new).rewritten = false := by
  constructor
  · refine ⟨rfl, rfl, ?_, ?_⟩
    · rw [scope_ofNamed, scope_ofNamed, hscope]
    · rw [shownMembers, shownMembers, entries_ofNamed _ _ hold, entries_ofNamed _ _ hnew,
        List.map_map, List.map_map]
      refine map_eq_of_forall₂ hmatches fun first hfirst second hsecond hpair => ?_
      obtain ⟨hsame, hagain⟩ := himports first hfirst second hsecond hpair
      have hrebound : (Rebinding.rebound 1 second).imports =
          (Rebinding.rebound 1 first).imports := hagain.trans hsame
      rw [Function.comp_apply, Function.comp_apply, hrebound]
      exact Prod.ext hpair.module_eq (Prod.ext hpair.exportMap_eq rfl)
  · have hnone : new.members.map isRebound = old.members.map fun _ => false := by
      refine map_eq_of_forall₂ hmatches fun first hfirst second hsecond hpair => ?_
      rw [isRebound, decide_eq_false_iff_not, Classical.not_not]
      exact (himports first hfirst second hsecond hpair).2
    rw [rewritten_ofNamed, List.any_eq_false]
    intro second hsecond
    have hmem := hnone ▸ List.mem_map_of_mem (f := isRebound) hsecond
    obtain ⟨-, -, hfalse⟩ := List.mem_map.mp hmem
    rw [← hfalse]
    exact Bool.false_ne_true

/-- If all imports are settled, merging again gives a concatenation that looks the same,
and rebinding finds nothing to change. -/
theorem rebuild_of_settled (hsettled : unit.Settled build.toBuildFacts)
    (htaps : build.extensions.mapTaps = [Rebinding.tap])
    (hbuild : (Concatenation.build build root modules).value = .ok unit)
    (definitions : ExportMap) :
    ∃ rebuilt, (Concatenation.build (build.publish unit definitions) root modules).value =
        .ok rebuilt ∧ Looks unit rebuilt ∧ rebuilt.rewritten = false := by
  obtain ⟨hroot, hregistered, -⟩ := exists_of_build_eq_ok hbuild
  obtain ⟨hscope, -, hmatches⟩ := NamedMembers.ofModules_respelled build.toBuildFacts
    (UniqueList.ofList modules) (build.publish unit definitions).code
    fun _ => hsettled.respelled_of_mem_entered htaps hbuild definitions
  rw [← toBuildFacts_publish] at hscope hmatches
  obtain ⟨hlooks, hkept⟩ := looks_ofNamed root build.runtime
    (NamedMembers.nodup_module_members _ _) (NamedMembers.nodup_module_members _ _) hscope hmatches
    fun first hfirst second hsecond hpair =>
      hsettled.rebindAll_imports htaps hbuild hfirst hsecond hpair
  rw [← eq_ofNamed_of_build htaps hbuild] at hlooks
  exact ⟨_, build_eq_ok (build.publish unit definitions) htaps hroot hregistered, hlooks, hkept⟩

end Concatenation

end ModuleLinker
