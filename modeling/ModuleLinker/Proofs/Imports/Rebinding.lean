import ModuleLinker.Proofs.Concatenation.Denotation

/-!
# What rebinding binds imports to

Rebinding looks up an import specifier among the exports of its member before it
looks up the binding among the member's own names, and it does not ask whether the
export found is a re-export of the import.  Every binding still belongs to one
owner of the merged scope; it is the import itself unless an export of the same
name denotes another binding.
-/

namespace ModuleLinker

/-- The import specifiers of all statements, in order. -/
def ModuleCode.importSpecifiers (code : ModuleCode) : List ImportSpecifier :=
  code.imports.flatMap ImportStatement.specifiers

namespace ModuleCode

theorem map_binding_importSpecifiers (code : ModuleCode) :
    code.importSpecifiers.map ImportSpecifier.binding = code.importBindings :=
  List.map_flatMap

/-- What the import specifiers bind are names of the top level. -/
theorem binding_mem_topLevelNames {code : ModuleCode} {specifier : ImportSpecifier}
    (h : specifier ∈ code.importSpecifiers) : specifier.binding ∈ code.topLevelNames := by
  rw [topLevelNames, ← map_binding_importSpecifiers]
  exact List.mem_append_right _ (List.mem_map_of_mem h)

end ModuleCode

namespace Concatenation

/-- The owner of the name that rebinding gives to an import specifier: what an
export of the same name denotes if its reference is an identifier, and else what
the import binds itself. -/
def importOwner (facts : BuildFacts) (unit : Concatenation) (module : ModuleId)
    (specifier : ImportSpecifier) : Owner :=
  match unit.reference? ⟨module, specifier.imported⟩,
      Naming.entity? facts unit.modules ⟨module, specifier.imported⟩ with
  | some (.identifier _), some (.binding owner) => owner
  | _, _ => .topLevel module specifier.binding

/-- The owners of the names of all import specifiers of a concatenation. -/
def importOwners (facts : BuildFacts) (unit : Concatenation) : List Owner :=
  unit.members.values.flatMap fun member =>
    (facts.codeOf member.module).importSpecifiers.map (importOwner facts unit member.module)

/-- The names that the import statements of all members bind. -/
def importedNames (unit : Concatenation) : List String :=
  unit.members.values.flatMap fun member => member.imports.flatMap ImportStatement.bindings

/-- The final names of the declarations of all members. -/
def declaredNames (facts : BuildFacts) (unit : Concatenation) : List String :=
  unit.members.values.flatMap fun member =>
    (facts.codeOf member.module).declarations.toList.filterMap member.localNames.find?

/-- The names that the import statements bind, with their owners. -/
def importLedger (facts : BuildFacts) (unit : Concatenation) : Ledger :=
  unit.members.values.flatMap fun member =>
    (facts.codeOf member.module).importSpecifiers.map fun specifier =>
      (importOwner facts unit member.module specifier,
        (Rebinding.rebind member.exportMap member.localNames specifier).binding)

variable {build : Build} {root : ModuleId} {modules : List ModuleId} {unit : Concatenation}
  {ledger : Ledger} {module : ModuleId} {member : Member} {specifier : ImportSpecifier}

theorem owners_importLedger (facts : BuildFacts) (unit : Concatenation) :
    (importLedger facts unit).owners = importOwners facts unit := by
  rw [importLedger, Ledger.owners, List.map_flatMap]
  simp only [List.map_map]
  rfl

/-- The import statements of a member with the names that one round of rebinding
gives them. -/
theorem imports_of_build (htaps : build.extensions.mapTaps = [Rebinding.tap])
    (hbuild : (Concatenation.build build root modules).value = .ok unit)
    (hmember : unit.members.find? module = some member) :
    member.imports = Rebinding.rebindAll member.exportMap member.localNames
      (build.toBuildFacts.codeOf module).imports := by
  have hall := MapTap.eq_of_mem_of_eq_singleton htaps
  rw [OrderedMap.find?_eq_some_iff, entries_members_of_build hall hbuild] at hmember
  obtain ⟨first, hfirst, heq⟩ := List.mem_map.mp hmember
  obtain ⟨rfl, rfl⟩ := Prod.mk.inj heq
  rw [htaps, ← (NamedMembers.entered_of_mem_members hfirst).imports_eq]
  rfl

/-- A name of a member is found under what an import specifier binds, and belongs to
the import. -/
theorem exists_localName_of_specifier
    (haccount : NamedMembers.Account build.toBuildFacts (UniqueList.ofList modules) unit.named
      ledger) (hmember : member ∈ unit.members.values)
    (hspecifier : specifier ∈ (build.toBuildFacts.codeOf member.module).importSpecifiers) :
    ∃ name, member.localNames.find? specifier.binding = some name ∧
      (.topLevel member.module specifier.binding, name) ∈ ledger := by
  obtain ⟨name, hname⟩ := OrderedMap.mem_keys_iff_exists_find?.mp
    ((haccount.mem_keys_iff member hmember _).mpr
      (ModuleCode.binding_mem_topLevelNames hspecifier))
  exact ⟨name, hname, (haccount.topLevel_iff _ _ _).mpr ⟨member, hmember, rfl, hname⟩⟩

/-- Rebinding gives an import specifier the name of its owner. -/
theorem importOwner_mem
    (htaps : ∀ tap ∈ build.extensions.mapTaps, tap = Rebinding.tap)
    (hbuild : (Concatenation.build build root modules).value = .ok unit)
    (haccount : NamedMembers.Account build.toBuildFacts (UniqueList.ofList modules) unit.named
      ledger) (hmember : unit.members.find? module = some member)
    (hspecifier : specifier ∈ (build.toBuildFacts.codeOf module).importSpecifiers) :
    (importOwner build.toBuildFacts unit module specifier,
      (Rebinding.rebind member.exportMap member.localNames specifier).binding) ∈ ledger := by
  obtain ⟨hvalue, rfl⟩ := (find?_members_iff_of_build htaps hbuild).mp hmember
  obtain ⟨name, hname, hlocal⟩ := exists_localName_of_specifier haccount hvalue hspecifier
  have hreference : unit.reference? ⟨member.module, specifier.imported⟩ =
      member.exportMap.find? specifier.imported := by
    rw [reference?, exportMap?, hmember]
    rfl
  rw [importOwner, hreference, Rebinding.rebind, Rebinding.finalName?]
  cases hfind : member.exportMap.find? specifier.imported with
  | none =>
    rw [hname]
    exact hlocal
  | some reference =>
    cases reference with
    | expression text =>
      rw [hname]
      exact hlocal
    | identifier exported =>
      obtain ⟨entity, hentity, hwrites⟩ :=
        exists_entity_of_reference htaps hbuild haccount (hreference.trans hfind)
      cases hwrites with
      | binding hentry =>
        rw [hentity]
        exact hentry

theorem importLedger_subset
    (htaps : ∀ tap ∈ build.extensions.mapTaps, tap = Rebinding.tap)
    (hbuild : (Concatenation.build build root modules).value = .ok unit)
    (haccount : NamedMembers.Account build.toBuildFacts (UniqueList.ofList modules) unit.named
      ledger) : importLedger build.toBuildFacts unit ⊆ ledger := by
  intro entry hentry
  obtain ⟨member, hmember, hentry⟩ := List.mem_flatMap.mp hentry
  obtain ⟨specifier, hspecifier, rfl⟩ := List.mem_map.mp hentry
  exact importOwner_mem htaps hbuild haccount
    ((find?_members_iff_of_build htaps hbuild).mpr ⟨hmember, rfl⟩) hspecifier

/-- The names of the import ledger are those that the import statements bind. -/
theorem names_importLedger (htaps : build.extensions.mapTaps = [Rebinding.tap])
    (hall : ∀ tap ∈ build.extensions.mapTaps, tap = Rebinding.tap)
    (hbuild : (Concatenation.build build root modules).value = .ok unit) :
    (importLedger build.toBuildFacts unit).names = unit.importedNames := by
  rw [importLedger, importedNames, Ledger.names, List.map_flatMap]
  apply List.flatMap_congr
  intro member hmember
  have himports := imports_of_build htaps hbuild
    ((find?_members_iff_of_build hall hbuild).mpr ⟨hmember, rfl⟩)
  rw [himports, Rebinding.rebindAll, ModuleCode.importSpecifiers, List.map_map,
    List.map_flatMap, List.flatMap_map]
  apply List.flatMap_congr
  intro statement _
  rw [ImportStatement.bindings, Rebinding.rebindStatement, List.map_map]
  rfl

/-- An import specifier gets its own new name exactly when the name belongs to the
import. -/
theorem rebind_eq_iff
    (htaps : ∀ tap ∈ build.extensions.mapTaps, tap = Rebinding.tap)
    (hbuild : (Concatenation.build build root modules).value = .ok unit)
    (haccount : NamedMembers.Account build.toBuildFacts (UniqueList.ofList modules) unit.named
      ledger) (hmember : unit.members.find? module = some member)
    (hspecifier : specifier ∈ (build.toBuildFacts.codeOf module).importSpecifiers) {name : String}
    (hname : member.localNames.find? specifier.binding = some name) :
    Rebinding.rebind member.exportMap member.localNames specifier = ⟨specifier.imported, name⟩ ↔
      importOwner build.toBuildFacts unit module specifier =
        .topLevel module specifier.binding := by
  have howner := importOwner_mem htaps hbuild haccount hmember hspecifier
  obtain ⟨hvalue, hmodule⟩ := (find?_members_iff_of_build htaps hbuild).mp hmember
  have hlocal := (haccount.topLevel_iff module specifier.binding name).mpr
    ⟨member, hvalue, hmodule, hname⟩
  constructor
  · intro heq
    rw [heq] at howner
    exact haccount.sound.owner_unique howner hlocal
  · intro heq
    rw [heq] at howner
    rw [← haccount.sound.name_unique howner hlocal]
    rfl

/-- Where every name belongs to its import, the owners are the import bindings of the
members. -/
theorem importOwners_eq_of_forall {facts : BuildFacts}
    (hkeeps : ∀ member ∈ unit.members.values,
      ∀ specifier ∈ (facts.codeOf member.module).importSpecifiers,
        importOwner facts unit member.module specifier =
          .topLevel member.module specifier.binding) :
    importOwners facts unit = unit.members.values.flatMap fun member =>
      (facts.codeOf member.module).importBindings.map (Owner.topLevel member.module) := by
  apply List.flatMap_congr
  intro member hmember
  rw [← ModuleCode.map_binding_importSpecifiers, List.map_map]
  exact List.map_congr_left (hkeeps member hmember)

/-- Import bindings that are distinct within their members have distinct owners, none
of which is a declaration. -/
theorem nodup_importOwners_of_forall {facts : BuildFacts}
    (hmodules : (unit.members.values.map Member.module).Nodup)
    (hdistinct : ∀ member ∈ unit.members.values,
      (facts.codeOf member.module).importBindings.Nodup)
    (hkeeps : ∀ member ∈ unit.members.values,
      ∀ specifier ∈ (facts.codeOf member.module).importSpecifiers,
        importOwner facts unit member.module specifier =
          .topLevel member.module specifier.binding) :
    (importOwners facts unit).Nodup := by
  rw [importOwners_eq_of_forall hkeeps]
  refine Ledger.nodup_flatMap_owners hmodules (fun member hmember => ?_)
    fun member _ owner howner => ?_
  · exact (hdistinct member hmember).map fun _ _ heq => (Owner.topLevel.inj heq).2
  · obtain ⟨binding, -, rfl⟩ := List.mem_map.mp howner
    rfl

theorem topLevel_notMem_importOwners_of_forall {facts : BuildFacts}
    (hkeeps : ∀ member ∈ unit.members.values,
      ∀ specifier ∈ (facts.codeOf member.module).importSpecifiers,
        importOwner facts unit member.module specifier =
          .topLevel member.module specifier.binding) {localName : String}
    (hfresh : localName ∉ (facts.codeOf module).importBindings) :
    .topLevel module localName ∉ importOwners facts unit := by
  rw [importOwners_eq_of_forall hkeeps]
  intro howner
  obtain ⟨member, -, howner⟩ := List.mem_flatMap.mp howner
  obtain ⟨binding, hbinding, heq⟩ := List.mem_map.mp howner
  obtain ⟨rfl, rfl⟩ := Owner.topLevel.inj heq
  exact hfresh hbinding

/-- Imports avoid the names of declarations exactly when no name that they bind belongs
to a declaration. -/
theorem disjoint_declaredNames_iff (htaps : build.extensions.mapTaps = [Rebinding.tap])
    (hall : ∀ tap ∈ build.extensions.mapTaps, tap = Rebinding.tap)
    (hbuild : (Concatenation.build build root modules).value = .ok unit)
    (haccount : NamedMembers.Account build.toBuildFacts (UniqueList.ofList modules) unit.named
      ledger) :
    unit.importedNames.Disjoint (declaredNames build.toBuildFacts unit) ↔
      ∀ member ∈ unit.members.values,
        ∀ declaration ∈ (build.toBuildFacts.codeOf member.module).declarations,
          .topLevel member.module declaration ∉ importOwners build.toBuildFacts unit := by
  have hsubset := importLedger_subset hall hbuild haccount
  rw [← names_importLedger htaps hall hbuild, ← owners_importLedger]
  constructor
  · intro hdisjoint member hmember declaration hdeclaration howner
    obtain ⟨name, hname⟩ := OrderedMap.mem_keys_iff_exists_find?.mp
      ((haccount.mem_keys_iff member hmember declaration).mpr
        (List.mem_append_left _ hdeclaration))
    have hentry := (haccount.topLevel_iff _ _ _).mpr ⟨member, hmember, rfl, hname⟩
    refine hdisjoint ((haccount.sound.mem_names_iff hsubset hentry).mpr howner) ?_
    exact List.mem_flatMap.mpr ⟨member, hmember, List.mem_filterMap.mpr
      ⟨declaration, hdeclaration, hname⟩⟩
  · intro howners name himported hdeclared
    obtain ⟨member, hmember, hdeclared⟩ := List.mem_flatMap.mp hdeclared
    obtain ⟨declaration, hdeclaration, hname⟩ := List.mem_filterMap.mp hdeclared
    have hentry := (haccount.topLevel_iff _ _ _).mpr ⟨member, hmember, rfl, hname⟩
    exact howners member hmember declaration hdeclaration
      ((haccount.sound.mem_names_iff hsubset hentry).mp himported)

/-- An import statement stands where it stood, and so do its specifiers. -/
theorem exists_rebound_statement (htaps : build.extensions.mapTaps = [Rebinding.tap])
    (hall : ∀ tap ∈ build.extensions.mapTaps, tap = Rebinding.tap)
    (hbuild : (Concatenation.build build root modules).value = .ok unit)
    (haccount : NamedMembers.Account build.toBuildFacts (UniqueList.ofList modules) unit.named
      ledger) (hmember : unit.members.find? module = some member) {i : Nat}
    {statement : ImportStatement}
    (hstatement : (build.toBuildFacts.codeOf module).imports[i]? = some statement) :
    ∃ built, member.imports[i]? = some built ∧ built.request = statement.request ∧
      built.specifiers.length = statement.specifiers.length ∧
      ∀ (j : Nat) (specifier : ImportSpecifier), statement.specifiers[j]? = some specifier →
        ∃ name, member.localNames.find? specifier.binding = some name ∧
          (built.specifiers[j]? = some ⟨specifier.imported, name⟩ ↔
            importOwner build.toBuildFacts unit module specifier =
              .topLevel module specifier.binding) := by
  refine ⟨Rebinding.rebindStatement member.exportMap member.localNames statement, ?_, rfl,
    List.length_map _, ?_⟩
  · rw [imports_of_build htaps hbuild hmember, Rebinding.rebindAll, List.getElem?_map,
      hstatement]
    rfl
  · intro j specifier hspecifier
    have hmem : specifier ∈ (build.toBuildFacts.codeOf module).importSpecifiers :=
      List.mem_flatMap.mpr ⟨statement, List.mem_of_getElem? hstatement,
        List.mem_of_getElem? hspecifier⟩
    obtain ⟨hvalue, rfl⟩ := (find?_members_iff_of_build hall hbuild).mp hmember
    obtain ⟨name, hname, -⟩ := exists_localName_of_specifier haccount hvalue hmem
    refine ⟨name, hname, ?_⟩
    rw [Rebinding.rebindStatement, List.getElem?_map, hspecifier, Option.map_some,
      Option.some.injEq]
    exact rebind_eq_iff hall hbuild haccount hmember hmem hname

/-- The names that imports bind repeat exactly as their owners do. -/
theorem nodup_importedNames_iff (htaps : build.extensions.mapTaps = [Rebinding.tap])
    (hall : ∀ tap ∈ build.extensions.mapTaps, tap = Rebinding.tap)
    (hbuild : (Concatenation.build build root modules).value = .ok unit)
    (haccount : NamedMembers.Account build.toBuildFacts (UniqueList.ofList modules) unit.named
      ledger) :
    unit.importedNames.Nodup ↔ (importOwners build.toBuildFacts unit).Nodup := by
  rw [← names_importLedger htaps hall hbuild, ← owners_importLedger]
  exact haccount.sound.nodup_names_iff (importLedger_subset hall hbuild haccount)

theorem nodup_module_of_account
    (haccount : NamedMembers.Account build.toBuildFacts (UniqueList.ofList modules) unit.named
      ledger) : (unit.members.values.map Member.module).Nodup := by
  have hmap : unit.members.values.map Member.module = (UniqueList.ofList modules).toList :=
    haccount.map_module
  rw [hmap]
  exact (UniqueList.ofList modules).nodup

/-- What one round of rebinding does to all imports of a concatenation.  A specifier
stands where it stood, under the new name of its own binding exactly when no export of
the same name denotes another one.  Names repeat or meet those of declarations exactly
as their owners do, so where all imports keep their own names, distinct bindings stay
distinct. -/
theorem rebound_imports (htaps : build.extensions.mapTaps = [Rebinding.tap])
    (hbuild : (Concatenation.build build root modules).value = .ok unit) :
    (∀ module member, unit.members.find? module = some member →
      ∀ (i : Nat) (statement : ImportStatement),
        (build.toBuildFacts.codeOf module).imports[i]? = some statement →
        ∃ built, member.imports[i]? = some built ∧ built.request = statement.request ∧
          built.specifiers.length = statement.specifiers.length ∧
          ∀ (j : Nat) (specifier : ImportSpecifier), statement.specifiers[j]? = some specifier →
            ∃ name, member.localNames.find? specifier.binding = some name ∧
              (built.specifiers[j]? = some ⟨specifier.imported, name⟩ ↔
                importOwner build.toBuildFacts unit module specifier =
                  .topLevel module specifier.binding)) ∧
    (unit.importedNames.Nodup ↔ (importOwners build.toBuildFacts unit).Nodup) ∧
    (unit.importedNames.Disjoint (declaredNames build.toBuildFacts unit) ↔
      ∀ member ∈ unit.members.values,
        ∀ declaration ∈ (build.toBuildFacts.codeOf member.module).declarations,
          .topLevel member.module declaration ∉ importOwners build.toBuildFacts unit) ∧
    ((∀ member ∈ unit.members.values,
        (build.toBuildFacts.codeOf member.module).importBindings.Nodup ∧
        ∀ binding ∈ (build.toBuildFacts.codeOf member.module).importBindings,
          binding ∉ (build.toBuildFacts.codeOf member.module).declarations) →
      (∀ member ∈ unit.members.values,
        ∀ specifier ∈ (build.toBuildFacts.codeOf member.module).importSpecifiers,
          importOwner build.toBuildFacts unit member.module specifier =
            .topLevel member.module specifier.binding) →
      unit.importedNames.Nodup ∧
        unit.importedNames.Disjoint (declaredNames build.toBuildFacts unit)) := by
  have hall : ∀ tap ∈ build.extensions.mapTaps, tap = Rebinding.tap := by
    rw [htaps]
    exact fun _ => List.mem_singleton.mp
  obtain ⟨ledger, haccount⟩ := exists_account_of_build hall hbuild
  have hnodup := nodup_importedNames_iff htaps hall hbuild haccount
  have hdisjoint := disjoint_declaredNames_iff htaps hall hbuild haccount
  refine ⟨?_, hnodup, hdisjoint, ?_⟩
  · intro module member hmember i statement hstatement
    exact exists_rebound_statement htaps hall hbuild haccount hmember hstatement
  · intro hdistinct hkeeps
    constructor
    · apply hnodup.mpr
      exact nodup_importOwners_of_forall (nodup_module_of_account haccount)
        (fun member hmember => (hdistinct member hmember).1) hkeeps
    · apply hdisjoint.mpr
      intro member hmember declaration hdeclaration
      apply topLevel_notMem_importOwners_of_forall hkeeps
      exact fun hbinding => (hdistinct member hmember).2 declaration hbinding hdeclaration

/-- A build of two modules: the first declares what the second imports from outside. -/
def joinBuild : Build :=
  let registry := ((∅ : ExportRegistry).register ⟨0⟩ "./index.js").register ⟨1⟩ "./util.js"
  let code := (∅ : CodeTable).edit ⟨0⟩ "main" fun code =>
    { code with declarations := UniqueList.ofList ["join"] }
  { (Build.empty default).addMapTap Rebinding.tap with
    registry
    code := code.edit ⟨1⟩ "main" fun code =>
      { code with imports := [⟨"node:path", [⟨"join", "join"⟩]⟩] } }

/-- The import gets a name of its own, since the declaration was there first. -/
theorem rebound_imports_join :
    ∃ unit, (Concatenation.build joinBuild ⟨0⟩ [⟨0⟩, ⟨1⟩]).value = .ok unit ∧
      unit.importedNames = ["join_1"] ∧
      importOwners joinBuild.toBuildFacts unit = [.topLevel ⟨1⟩ "join"] ∧
      unit.importedNames.Nodup := by
  obtain ⟨unit, hbuild, hread⟩ := exists_eq_ok_of_map_toOption
    (Concatenation.build joinBuild ⟨0⟩ [⟨0⟩, ⟨1⟩]).value
    (fun unit => (unit.importedNames, importOwners joinBuild.toBuildFacts unit))
    (y := (["join_1"], [.topLevel ⟨1⟩ "join"])) (by decide)
  obtain ⟨hnames, howners⟩ := Prod.mk.inj hread
  refine ⟨unit, hbuild, hnames, howners, (rebound_imports rfl hbuild).2.1.mpr ?_⟩
  rw [howners]
  exact List.nodup_singleton _

/-- A build of a module that exports a declaration of its own and imports something of
the same name under another. -/
def shadowedImportBuild : Build :=
  let registry :=
    ((∅ : ExportRegistry).register ⟨0⟩ "./index.js").addExport ⟨0⟩
      ⟨"helper", .provided, ∅, none, none⟩
  { (Build.empty default).addMapTap Rebinding.tap with
    registry := registry.toOption.getD ∅
    code := (∅ : CodeTable).edit ⟨0⟩ "main" fun code =>
      { code with
        declarations := UniqueList.ofList ["helper"]
        imports := [⟨"ext", [⟨"helper", "h"⟩]⟩] } }

/-- An import does not always get its own new name: here it is bound as the declaration
that the module exports. -/
theorem import_binds_declared_name :
    ∃ unit member, (Concatenation.build shadowedImportBuild ⟨0⟩ [⟨0⟩]).value = .ok unit ∧
      unit.members.find? ⟨0⟩ = some member ∧
      (shadowedImportBuild.toBuildFacts.codeOf ⟨0⟩).imports = [⟨"ext", [⟨"helper", "h"⟩]⟩] ∧
      member.localNames.find? "h" = some "h" ∧
      member.imports = [⟨"ext", [⟨"helper", "helper"⟩]⟩] ∧
      ¬ unit.importedNames.Disjoint (declaredNames shadowedImportBuild.toBuildFacts unit) := by
  obtain ⟨unit, hbuild, hread⟩ := exists_eq_ok_of_map_toOption
    (Concatenation.build shadowedImportBuild ⟨0⟩ [⟨0⟩]).value
    (fun unit =>
      ((unit.members.find? ⟨0⟩).map fun member => (member.localNames.find? "h", member.imports),
        unit.importedNames, declaredNames shadowedImportBuild.toBuildFacts unit))
    (y := (some (some "h", [⟨"ext", [⟨"helper", "helper"⟩]⟩]), ["helper"], ["helper"]))
    (by decide)
  obtain ⟨hmember, hnames⟩ := Prod.mk.inj hread
  obtain ⟨himported, hdeclared⟩ := Prod.mk.inj hnames
  obtain ⟨member, hfind, hmember⟩ := Option.map_eq_some_iff.mp hmember
  obtain ⟨hlocal, himports⟩ := Prod.mk.inj hmember
  refine ⟨unit, member, hbuild, hfind, by decide, hlocal, himports, ?_⟩
  rw [himported, hdeclared]
  exact fun hdisjoint => hdisjoint List.mem_cons_self List.mem_cons_self

end Concatenation

end ModuleLinker
