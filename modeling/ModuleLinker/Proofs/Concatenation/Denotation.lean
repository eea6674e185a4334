import ModuleLinker.Proofs.Concatenation.Building

/-!
# What linking binds exports to

Two exports of a merged scope are written alike exactly when following their
re-exports ends at the same thing.  The entries of all export maps are written with
one sound ledger, so this holds between members as within one.
-/

namespace ModuleLinker

namespace Concatenation

/-- What an export of a member is written as. -/
def reference? (unit : Concatenation) (site : ExportSite) : Option Reference :=
  (unit.exportMap? site.module).bind fun map => map.find? site.name

variable {build : Build} {root : ModuleId} {modules : List ModuleId} {unit : Concatenation}

/-- Every entry of every export map is written for what its export denotes. -/
theorem exists_entity_of_reference
    (htaps : ∀ tap ∈ build.extensions.mapTaps, tap = Rebinding.tap)
    (hbuild : (Concatenation.build build root modules).value = .ok unit) {ledger : Ledger}
    (haccount : NamedMembers.Account build.toBuildFacts (UniqueList.ofList modules) unit.named
      ledger) {site : ExportSite} {reference : Reference}
    (hreference : unit.reference? site = some reference) :
    ∃ entity, Naming.entity? build.toBuildFacts unit.modules site = some entity ∧
      ledger.Writes entity reference := by
  obtain ⟨map, hmap, hfind⟩ := Option.bind_eq_some_iff.mp hreference
  obtain ⟨member, hmember, rfl⟩ := Option.map_eq_some_iff.mp hmap
  obtain ⟨hvalue, hmodule⟩ := (find?_members_iff_of_build htaps hbuild).mp hmember
  obtain ⟨entity, hentity, hwrites⟩ := haccount.denotes member hvalue site.name reference hfind
  refine ⟨entity, ?_, hwrites⟩
  rw [modules_of_build hbuild]
  rw [hmodule] at hentity
  exact hentity

/-- What the scope of a concatenation is sure to hold: the exports object, the new name
of everything that a member's code binds, the names of namespaces inside and outside,
and every name that occurs in an export map. -/
structure HoldsNames (facts : BuildFacts) (unit : Concatenation) : Prop where
  exportsObject_mem : exportsObject ∈ unit.scope.names
  localName_mem : ∀ module member, unit.members.find? module = some member →
    ∀ localName ∈ (facts.codeOf module).topLevelNames,
      ∃ name ∈ unit.scope.names, member.localNames.find? localName = some name
  namespaceName_mem : ∀ module member name, unit.members.find? module = some member →
    member.namespaceName = some name → name ∈ unit.scope.names
  outside_mem : ∀ module name, unit.outside.find? module = some name → name ∈ unit.scope.names
  identifier_mem : ∀ site name, unit.reference? site = some (.identifier name) →
    name ∈ unit.scope.names
  expression_mem : ∀ site text, unit.reference? site = some (.expression text) →
    ∃ name ∈ unit.scope.names, ∃ access, text = name ++ Quoted.property access

theorem mem_scope_names_of_mem_ledger {ledger : Ledger}
    (haccount : NamedMembers.Account build.toBuildFacts (UniqueList.ofList modules) unit.named
      ledger) {owner : Owner} {name : String} (h : (owner, name) ∈ ledger) :
    name ∈ unit.scope.names := by
  have hnames : unit.scope.names.toList = exportsObject :: ledger.names := haccount.toList_names
  rw [← UniqueList.mem_toList, hnames]
  exact List.mem_cons_of_mem _ (List.mem_map_of_mem (f := Prod.snd) h)

theorem holdsNames_of_build
    (htaps : ∀ tap ∈ build.extensions.mapTaps, tap = Rebinding.tap)
    (hbuild : (Concatenation.build build root modules).value = .ok unit) :
    HoldsNames build.toBuildFacts unit := by
  obtain ⟨ledger, haccount⟩ := exists_account_of_build htaps hbuild
  have hmembers {module : ModuleId} {member : Member} :
      unit.members.find? module = some member ↔
        member ∈ unit.members.values ∧ member.module = module :=
    find?_members_iff_of_build htaps hbuild
  refine ⟨?_, ?_, ?_, ?_, ?_, ?_⟩
  · have hnames : unit.scope.names.toList = exportsObject :: ledger.names :=
      haccount.toList_names
    rw [← UniqueList.mem_toList, hnames]
    exact List.mem_cons_self
  · intro module member hmember localName hlocal
    obtain ⟨hvalue, rfl⟩ := hmembers.mp hmember
    obtain ⟨name, hname⟩ := OrderedMap.mem_keys_iff_exists_find?.mp
      ((haccount.mem_keys_iff member hvalue localName).mpr hlocal)
    exact ⟨name, mem_scope_names_of_mem_ledger haccount
      ((haccount.topLevel_iff _ _ _).mpr ⟨member, hvalue, rfl, hname⟩), hname⟩
  · intro module member name hmember hname
    obtain ⟨hvalue, hmodule⟩ := hmembers.mp hmember
    exact mem_scope_names_of_mem_ledger haccount
      ((haccount.namespaceOf_iff _ _).mpr (Or.inl ⟨member, hvalue, hmodule, hname⟩))
  · intro module name hname
    exact mem_scope_names_of_mem_ledger haccount
      ((haccount.namespaceOf_iff _ _).mpr (Or.inr hname))
  · intro site name hreference
    obtain ⟨entity, -, hwrites⟩ := exists_entity_of_reference htaps hbuild haccount hreference
    cases hwrites with
    | binding hentry => exact mem_scope_names_of_mem_ledger haccount hentry
  · intro site text hreference
    obtain ⟨entity, -, hwrites⟩ := exists_entity_of_reference htaps hbuild haccount hreference
    cases hwrites with
    | property hentry access =>
      exact ⟨_, mem_scope_names_of_mem_ledger haccount hentry, access, rfl⟩

/-- Linking binds every export to what it denotes and to nothing else: exports that
have references denote something, and two of them have one reference exactly when
they denote the same. -/
theorem reference_eq_iff_entity_eq
    (htaps : ∀ tap ∈ build.extensions.mapTaps, tap = Rebinding.tap)
    (hbuild : (Concatenation.build build root modules).value = .ok unit)
    {first second : ExportSite} {firstReference secondReference : Reference}
    (hfirst : unit.reference? first = some firstReference)
    (hsecond : unit.reference? second = some secondReference) :
    ∃ firstEntity secondEntity,
      Naming.entity? build.toBuildFacts unit.modules first = some firstEntity ∧
      Naming.entity? build.toBuildFacts unit.modules second = some secondEntity ∧
      (firstReference = secondReference ↔ firstEntity = secondEntity) := by
  obtain ⟨ledger, haccount⟩ := exists_account_of_build htaps hbuild
  obtain ⟨firstEntity, hfirstEntity, hfirstWrites⟩ :=
    exists_entity_of_reference htaps hbuild haccount hfirst
  obtain ⟨secondEntity, hsecondEntity, hsecondWrites⟩ :=
    exists_entity_of_reference htaps hbuild haccount hsecond
  exact ⟨firstEntity, secondEntity, hfirstEntity, hsecondEntity,
    haccount.sound.reference_eq_iff hfirstWrites hsecondWrites⟩

/-- A build of two modules that declare the same name; the first re-exports what the
second has under it. -/
def reexportBuild : Build :=
  let registry : Except LinkError ExportRegistry := do
    let known := ((∅ : ExportRegistry).register ⟨0⟩ "./index.js").register ⟨1⟩ "./lib.js"
    let origin ← known.addExport ⟨1⟩ ⟨"value", .provided, ∅, none, none⟩
    origin.addExport ⟨0⟩ ⟨"answer", .provided, ∅, some ⟨⟨1⟩, some "value"⟩, none⟩
  let declaring := fun code : ModuleCode => { code with declarations := UniqueList.ofList ["value"] }
  { (Build.empty default).addMapTap Rebinding.tap with
    registry := registry.toOption.getD ∅
    code := ((∅ : CodeTable).edit ⟨0⟩ "main" declaring).edit ⟨1⟩ "main" declaring }

/-- The re-export shares the new name of the declaration behind it. -/
theorem reference_eq_iff_entity_eq_reexport :
    ∃ unit, (Concatenation.build reexportBuild ⟨0⟩ [⟨0⟩, ⟨1⟩]).value = .ok unit ∧
      unit.reference? ⟨⟨0⟩, "answer"⟩ = some (.identifier "value_1") ∧
      unit.reference? ⟨⟨1⟩, "value"⟩ = some (.identifier "value_1") ∧
      ∃ firstEntity secondEntity,
        Naming.entity? reexportBuild.toBuildFacts unit.modules ⟨⟨0⟩, "answer"⟩ =
          some firstEntity ∧
        Naming.entity? reexportBuild.toBuildFacts unit.modules ⟨⟨1⟩, "value"⟩ =
          some secondEntity ∧
        (Reference.identifier "value_1" = .identifier "value_1" ↔ firstEntity = secondEntity) := by
  obtain ⟨unit, hbuild, hreferences⟩ := exists_eq_ok_of_map_toOption
    (Concatenation.build reexportBuild ⟨0⟩ [⟨0⟩, ⟨1⟩]).value
    (fun unit => (unit.reference? ⟨⟨0⟩, "answer"⟩, unit.reference? ⟨⟨1⟩, "value"⟩))
    (y := (some (.identifier "value_1"), some (.identifier "value_1"))) (by decide)
  obtain ⟨hanswer, hvalue⟩ := Prod.mk.inj hreferences
  exact ⟨unit, hbuild, hanswer, hvalue,
    reference_eq_iff_entity_eq (fun _ => List.mem_singleton.mp) hbuild hanswer hvalue⟩

end Concatenation

end ModuleLinker
