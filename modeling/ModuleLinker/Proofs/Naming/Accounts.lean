import ModuleLinker.Proofs.Naming.Rounds

/-!
# The account of a merged scope

The three rounds together: the names of a merged scope are the exports object and
the names of one sound ledger.  Its first part lists the local names of the
members, its second the exports that needed names of their own, and its third the
namespaces; and every entry of every export map is written for the entity that its
export denotes.
-/

namespace ModuleLinker

/-- The import statements in the code of modules, in order. -/
def BuildFacts.importsOf (facts : BuildFacts) (modules : List ModuleId) :
    List ImportStatement :=
  modules.flatMap fun module => (facts.codeOf module).imports

/-- The account of the names of a merged scope: a sound ledger of all of them but
the exports object, by which every owner has its name and every export what it
denotes. -/
structure NamedMembers.Account (facts : BuildFacts) (modules : UniqueList ModuleId)
    (named : NamedMembers) (ledger : Ledger) : Prop where
  toList_names : named.scope.names.toList = exportsObject :: ledger.names
  sound : ledger.Sound
  map_module : named.members.map Member.module = modules.toList
  mem_keys_iff : ∀ member ∈ named.members, ∀ localName, localName ∈ member.localNames.keys ↔
    localName ∈ (facts.codeOf member.module).topLevelNames
  topLevel_iff : ∀ module localName name, (.topLevel module localName, name) ∈ ledger ↔
    ∃ member ∈ named.members, member.module = module ∧
      member.localNames.find? localName = some name
  unbacked_iff : ∀ module exportName, .unbacked module exportName ∈ ledger.owners ↔
    module ∈ modules ∧ ∃ e ∈ Naming.linkable facts module,
      Naming.needsName facts module e = true ∧ e.name = exportName
  namespaceOf_iff : ∀ module name, (.namespaceOf module, name) ∈ ledger ↔
    (∃ member ∈ named.members, member.module = module ∧ member.namespaceName = some name) ∨
      named.outside.find? module = some name
  denotes : ∀ member ∈ named.members,
    Naming.Denotes facts modules.toList ledger member.module member.exportMap

namespace NamedMembers

variable {facts : BuildFacts} {modules : UniqueList ModuleId}

/-- The three parts of a ledger: the local names of members, the names of the
exports that need one, and the names of namespaces. -/
structure Parts (facts : BuildFacts) (members : List Member) (unbacked spaces : Ledger) :
    Prop where
  nodup_modules : (members.map Member.module).Nodup
  owners_unbacked : unbacked.owners = members.flatMap fun member =>
    Naming.unbackedOwners facts member.module (Naming.linkable facts member.module)
  nodup_spaces : spaces.owners.Nodup
  isNamespace : ∀ owner ∈ spaces.owners, ∃ module, owner = .namespaceOf module

namespace Parts

variable {members : List Member} {unbacked spaces : Ledger}

theorem owners_locals (members : List Member) :
    Ledger.owners (members.flatMap Member.localLedger) =
      members.flatMap fun member =>
        member.localNames.keys.map (Owner.topLevel member.module) := by
  rw [Ledger.owners, List.map_flatMap]
  exact List.flatMap_congr fun member _ => member.owners_localLedger

theorem exists_topLevel {owner : Owner}
    (h : owner ∈ Ledger.owners (members.flatMap Member.localLedger)) :
    ∃ module localName, owner = .topLevel module localName := by
  rw [owners_locals] at h
  obtain ⟨member, -, howner⟩ := List.mem_flatMap.mp h
  obtain ⟨localName, -, rfl⟩ := List.mem_map.mp howner
  exact ⟨member.module, localName, rfl⟩

theorem exists_unbacked (h : Parts facts members unbacked spaces) {owner : Owner}
    (howner : owner ∈ unbacked.owners) :
    ∃ module exportName, owner = .unbacked module exportName := by
  rw [h.owners_unbacked] at howner
  obtain ⟨member, -, howner⟩ := List.mem_flatMap.mp howner
  obtain ⟨e, -, rfl⟩ := List.mem_map.mp howner
  exact ⟨member.module, e.name, rfl⟩

/-- The parts belong to owners of three kinds, so no owner is in two of them. -/
theorem nodup_owners (h : Parts facts members unbacked spaces) :
    (Ledger.owners (members.flatMap Member.localLedger ++ unbacked ++ spaces)).Nodup := by
  rw [Ledger.owners_append, Ledger.owners_append, List.nodup_append, List.nodup_append]
  refine ⟨⟨?_, ?_, ?_⟩, h.nodup_spaces, ?_⟩
  · rw [owners_locals]
    refine Ledger.nodup_flatMap_owners h.nodup_modules (fun member _ => ?_)
      fun member _ owner howner => ?_
    · exact member.owners_localLedger ▸ member.nodup_owners_localLedger
    · obtain ⟨localName, -, rfl⟩ := List.mem_map.mp howner
      rfl
  · rw [h.owners_unbacked]
    refine Ledger.nodup_flatMap_owners h.nodup_modules (fun member _ => ?_)
      fun member _ owner howner => ?_
    · exact Naming.nodup_unbackedOwners facts _ (Naming.nodup_linkable_names facts member.module)
    · obtain ⟨e, -, rfl⟩ := List.mem_map.mp howner
      rfl
  · rintro owner howner _ hother rfl
    obtain ⟨module, localName, rfl⟩ := exists_topLevel howner
    obtain ⟨other, exportName, heq⟩ := h.exists_unbacked hother
    exact Owner.noConfusion heq
  · rintro owner howner _ hother rfl
    obtain ⟨module, rfl⟩ := h.isNamespace owner hother
    cases List.mem_append.mp howner with
    | inl howner =>
      obtain ⟨other, localName, heq⟩ := exists_topLevel howner
      exact Owner.noConfusion heq
    | inr howner =>
      obtain ⟨other, exportName, heq⟩ := h.exists_unbacked howner
      exact Owner.noConfusion heq

theorem topLevel_iff (h : Parts facts members unbacked spaces) {module : ModuleId}
    {localName name : String} :
    (.topLevel module localName, name) ∈
        members.flatMap Member.localLedger ++ unbacked ++ spaces ↔
      ∃ member ∈ members, member.module = module ∧
        member.localNames.find? localName = some name := by
  have hunbacked : (.topLevel module localName, name) ∉ unbacked := by
    intro hmem
    obtain ⟨other, exportName, heq⟩ := h.exists_unbacked (List.mem_map_of_mem (f := Prod.fst) hmem)
    exact Owner.noConfusion heq
  have hspaces : (.topLevel module localName, name) ∉ spaces := by
    intro hmem
    obtain ⟨other, heq⟩ := h.isNamespace _ (List.mem_map_of_mem (f := Prod.fst) hmem)
    exact Owner.noConfusion heq
  rw [List.mem_append, or_iff_left hspaces, List.mem_append, or_iff_left hunbacked,
    List.mem_flatMap]
  exact exists_congr fun member => and_congr_right fun _ => Member.mem_localLedger_iff

theorem unbacked_iff (h : Parts facts members unbacked spaces) {module : ModuleId}
    {exportName : String} :
    .unbacked module exportName ∈
        Ledger.owners (members.flatMap Member.localLedger ++ unbacked ++ spaces) ↔
      module ∈ members.map Member.module ∧ ∃ e ∈ Naming.linkable facts module,
        Naming.needsName facts module e = true ∧ e.name = exportName := by
  have hlocals : .unbacked module exportName ∉
      Ledger.owners (members.flatMap Member.localLedger) := by
    intro hmem
    obtain ⟨other, localName, heq⟩ := exists_topLevel hmem
    exact Owner.noConfusion heq
  have hspaces : .unbacked module exportName ∉ spaces.owners := by
    intro hmem
    obtain ⟨other, heq⟩ := h.isNamespace _ hmem
    exact Owner.noConfusion heq
  rw [Ledger.owners_append, Ledger.owners_append, List.mem_append, or_iff_left hspaces,
    List.mem_append, or_iff_right hlocals, h.owners_unbacked, List.mem_flatMap]
  constructor
  · rintro ⟨member, hmember, howner⟩
    obtain ⟨e, he, heq⟩ := List.mem_map.mp howner
    obtain ⟨rfl, rfl⟩ := Owner.unbacked.inj heq
    rw [List.mem_filter] at he
    exact ⟨List.mem_map_of_mem hmember, e, he.1, he.2, rfl⟩
  · rintro ⟨hmodule, e, he, hneeds, rfl⟩
    obtain ⟨member, hmember, rfl⟩ := List.mem_map.mp hmodule
    exact ⟨member, hmember, List.mem_map.mpr ⟨e, List.mem_filter.mpr ⟨he, hneeds⟩, rfl⟩⟩

theorem namespaceOf_iff (h : Parts facts members unbacked spaces) {module : ModuleId}
    {name : String} :
    (.namespaceOf module, name) ∈ members.flatMap Member.localLedger ++ unbacked ++ spaces ↔
      (.namespaceOf module, name) ∈ spaces := by
  have hlocals : (.namespaceOf module, name) ∉ members.flatMap Member.localLedger := by
    intro hmem
    obtain ⟨other, localName, heq⟩ := exists_topLevel (List.mem_map_of_mem (f := Prod.fst) hmem)
    exact Owner.noConfusion heq
  have hunbacked : (.namespaceOf module, name) ∉ unbacked := by
    intro hmem
    obtain ⟨other, exportName, heq⟩ := h.exists_unbacked (List.mem_map_of_mem (f := Prod.fst) hmem)
    exact Owner.noConfusion heq
  rw [List.mem_append, List.mem_append, or_iff_right (not_or_intro hlocals hunbacked)]

end Parts

/-- The later rounds change nothing of a member but its export map and the name of
its namespace. -/
theorem map_members_ofModules {α : Type} (f : Member → α)
    (hf : ∀ (member : Member) (exportMap : ExportMap) (namespaceName : Option String),
      f { member with exportMap, namespaceName } = f member)
    (facts : BuildFacts) (modules : UniqueList ModuleId) :
    (ofModules facts modules).members.map f = (entered facts modules).2.map f := by
  rw [ofModules_eq, List.map_map, mapped, ← Naming.map_mapMembers f fun member exportMap =>
    hf member exportMap member.namespaceName]
  exact List.map_congr_left fun member _ => hf member member.exportMap _

theorem map_module_members (facts : BuildFacts) (modules : UniqueList ModuleId) :
    (ofModules facts modules).members.map Member.module = modules.toList :=
  (map_members_ofModules Member.module (fun _ _ _ => rfl) facts modules).trans
    (map_module_entered facts modules)

theorem nodup_module_members (facts : BuildFacts) (modules : UniqueList ModuleId) :
    ((ofModules facts modules).members.map Member.module).Nodup :=
  map_module_members facts modules ▸ modules.nodup

theorem module_mem_of_mem_members {member : Member}
    (h : member ∈ (ofModules facts modules).members) : member.module ∈ modules.toList :=
  map_module_members facts modules ▸ List.mem_map_of_mem h

/-- Each member is, but for its export map and the name of its namespace, one that
the first round has entered. -/
theorem entered_of_mem_members {member : Member} (h : member ∈ (ofModules facts modules).members) :
    Naming.Entered facts member := by
  have hmap := map_members_ofModules (fun member =>
    (member.module, member.localNames, member.imports)) (fun _ _ _ => rfl) facts modules
  have hmem := hmap ▸ List.mem_map_of_mem
    (f := fun member : Member => (member.module, member.localNames, member.imports)) h
  obtain ⟨first, hfirst, heq⟩ := List.mem_map.mp hmem
  obtain ⟨hmodule, hnames, himports⟩ := Prod.mk.inj heq |>.imp id Prod.mk.inj
  have hentered := Naming.entered_of_mem_enterMembers hfirst
  constructor
  · rw [← hnames, ← hmodule]
    exact hentered.mem_keys_iff
  · rw [← himports, ← hmodule]
    exact hentered.imports_eq

/-- The members have the imports that are known of their code. -/
theorem flatMap_imports_members (facts : BuildFacts) (modules : UniqueList ModuleId) :
    (ofModules facts modules).members.flatMap Member.imports =
      facts.importsOf modules.toList := by
  rw [BuildFacts.importsOf, ← map_module_members facts, List.flatMap_map]
  exact List.flatMap_congr fun _ hmember => (entered_of_mem_members hmember).imports_eq

/-- The name of a member's namespace is the one that the ledger of namespaces has. -/
theorem Ledgers.namespaceName_iff {unbacked spaces : Ledger}
    (h : Ledgers facts modules unbacked spaces) {member : Member}
    (hmember : member ∈ (ofModules facts modules).members) {name : String} :
    member.namespaceName = some name ↔ (.namespaceOf member.module, name) ∈ spaces := by
  have hmodule := module_mem_of_mem_members hmember
  obtain ⟨first, -, rfl⟩ := List.mem_map.mp hmember
  exact (h.coherent.inside first.module name).trans (and_iff_right hmodule)

/-- Naming accounts for every name of the merged scope. -/
theorem exists_account (facts : BuildFacts) (modules : UniqueList ModuleId) :
    ∃ ledger : Ledger, Account facts modules (ofModules facts modules) ledger := by
  obtain ⟨unbacked, spaces, hrounds⟩ := exists_ledgers facts modules
  -- The ledger is the same whether it is read off the members as they entered or off the
  -- members with their export maps.
  have hmap := map_module_members facts modules
  have hsame : (entered facts modules).2.flatMap Member.localLedger =
      (ofModules facts modules).members.flatMap Member.localLedger := by
    rw [List.flatMap_def, List.flatMap_def,
      map_members_ofModules Member.localLedger (fun _ _ _ => rfl)]
  have hparts : Parts facts (ofModules facts modules).members unbacked spaces := {
    nodup_modules := nodup_module_members facts modules
    owners_unbacked := by
      rw [hrounds.owners_unbacked, List.flatMap_def, List.flatMap_def,
        map_members_ofModules (fun member => Naming.unbackedOwners facts member.module
          (Naming.linkable facts member.module)) (fun _ _ _ => rfl)]
    nodup_spaces := hrounds.coherent.nodup_owners
    isNamespace := hrounds.coherent.isNamespace }
  have hgrows := hrounds.grows_scope
  rw [hsame] at hgrows
  refine ⟨(ofModules facts modules).members.flatMap Member.localLedger ++ unbacked ++ spaces, {
    toList_names := hgrows.toList_eq
    sound := ⟨hparts.nodup_owners, hgrows.nodup, hgrows.isIdentifier⟩
    map_module := hmap
    mem_keys_iff := fun member h => (entered_of_mem_members h).mem_keys_iff
    topLevel_iff := fun module localName name => hparts.topLevel_iff
    unbacked_iff := fun module exportName => by
      rw [hparts.unbacked_iff, hmap, UniqueList.mem_toList]
    namespaceOf_iff := fun module name => ?_
    denotes := fun member hmember => ?_ }⟩
  · rw [hparts.namespaceOf_iff]
    constructor
    · intro hmem
      by_cases hmodule : module ∈ modules.toList
      · rw [← hmap] at hmodule
        obtain ⟨member, hmember, rfl⟩ := List.mem_map.mp hmodule
        exact Or.inl ⟨member, hmember, rfl, (hrounds.namespaceName_iff hmember).mpr hmem⟩
      · exact Or.inr ((hrounds.coherent.outside module name).mpr ⟨hmodule, hmem⟩)
    · rintro (⟨member, hmember, rfl, hname⟩ | hname)
      · exact (hrounds.namespaceName_iff hmember).mp hname
      · exact ((hrounds.coherent.outside module name).mp hname).2
  · obtain ⟨first, hfirst, rfl⟩ := List.mem_map.mp hmember
    rw [← hsame]
    exact hrounds.denotes first hfirst

end NamedMembers

end ModuleLinker
