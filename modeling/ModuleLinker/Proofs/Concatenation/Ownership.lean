import Mathlib.Data.List.Perm.Basic
import ModuleLinker.Proofs.Concatenation.Building
import ModuleLinker.Proofs.Exports.Histories
import ModuleLinker.Proofs.Naming.Coverage

/-!
# Who owns the names of a merged scope

Names are handed out in five places, and two of them take a name only when it is first
needed.  Still the names of a concatenation are exactly those that can be read off it:
the exports object, the local names of its members, one name for each export that its
member's code does not bind, and the names of namespaces inside and outside.  None of
them has two owners.
-/

namespace ModuleLinker

/-- Entries of a sound ledger with distinct owners, among them all owners of the ledger,
are all of its entries. -/
theorem Ledger.Sound.perm_of_subset {ledger entries : Ledger} (hsound : ledger.Sound)
    (hnodup : entries.owners.Nodup) (hsubset : entries ⊆ ledger)
    (howners : ledger.owners ⊆ entries.owners) : ledger.Perm entries := by
  rw [List.perm_ext_iff_of_nodup (List.Nodup.of_map _ hsound.nodup_owners)
    (List.Nodup.of_map _ hnodup)]
  rintro ⟨owner, name⟩
  constructor
  · intro hentry
    obtain ⟨⟨_, other⟩, hother, rfl⟩ :=
      List.mem_map.mp (howners (List.mem_map_of_mem (f := Prod.fst) hentry))
    rw [hsound.name_unique hentry (hsubset hother)]
    exact hother
  · exact fun hentry => hsubset hentry

namespace Member

/-- The binding to which the export map of a member refers under a name, if it refers
to one. -/
def bindingOf? (member : Member) (exportName : String) : Option String :=
  (member.exportMap.find? exportName).bind fun
    | .identifier name => some name
    | .expression _ => none

/-- The bindings of the exports for which the code of a member binds nothing. -/
def unbackedNames (facts : BuildFacts) (member : Member) : List String :=
  ((Naming.linkable facts member.module).filter (Naming.needsName facts member.module)).filterMap
    fun e => member.bindingOf? e.name

/-- The ledger of these bindings. -/
def unbackedLedger (facts : BuildFacts) (member : Member) : Ledger :=
  ((Naming.linkable facts member.module).filter (Naming.needsName facts member.module)).filterMap
    fun e => (member.bindingOf? e.name).map fun name => (.unbacked member.module e.name, name)

/-- The ledger of the name of a member's namespace, if it has one. -/
def namespaceLedger (member : Member) : Ledger :=
  member.namespaceName.toList.map fun name => (.namespaceOf member.module, name)

theorem bindingOf?_eq_some_iff {member : Member} {exportName name : String} :
    member.bindingOf? exportName = some name ↔
      member.exportMap.find? exportName = some (.identifier name) := by
  rw [bindingOf?, Option.bind_eq_some_iff]
  constructor
  · rintro ⟨reference, hfind, hname⟩
    cases reference with
    | identifier other => rw [hfind, Option.some.inj hname]
    | expression text => exact absurd hname.symm (Option.some_ne_none _)
  · intro hfind
    exact ⟨.identifier name, hfind, rfl⟩

theorem names_unbackedLedger (facts : BuildFacts) (member : Member) :
    (member.unbackedLedger facts).names = member.unbackedNames facts := by
  rw [unbackedLedger, Ledger.names, List.map_filterMap, unbackedNames]
  simp only [Option.map_map, Function.comp_def, Option.map_id']

theorem mem_unbackedLedger_iff {facts : BuildFacts} {member : Member} {entry : Owner × String} :
    entry ∈ member.unbackedLedger facts ↔ ∃ e ∈ Naming.linkable facts member.module,
      Naming.needsName facts member.module e = true ∧
        ∃ name, member.exportMap.find? e.name = some (.identifier name) ∧
          entry = (.unbacked member.module e.name, name) := by
  simp only [unbackedLedger, List.mem_filterMap, List.mem_filter, Option.map_eq_some_iff,
    bindingOf?_eq_some_iff, and_assoc, eq_comm (b := entry)]

theorem mem_namespaceLedger_iff {member : Member} {entry : Owner × String} :
    entry ∈ member.namespaceLedger ↔
      ∃ name, member.namespaceName = some name ∧ entry = (.namespaceOf member.module, name) := by
  simp only [namespaceLedger, List.mem_map, Option.mem_toList, eq_comm (b := entry)]

/-- If each of these exports has a binding, their owners are those of its round. -/
theorem owners_unbackedLedger {facts : BuildFacts} {member : Member}
    (hbound : ∀ e ∈ Naming.linkable facts member.module,
      Naming.needsName facts member.module e = true →
        ∃ name, member.exportMap.find? e.name = some (.identifier name)) :
    (member.unbackedLedger facts).owners =
      Naming.unbackedOwners facts member.module (Naming.linkable facts member.module) := by
  rw [unbackedLedger, Ledger.owners, List.map_filterMap, Naming.unbackedOwners,
    ← List.filterMap_eq_map]
  apply List.filterMap_congr
  intro e he
  obtain ⟨name, hname⟩ := hbound e (List.mem_filter.mp he).1 (List.mem_filter.mp he).2
  rw [bindingOf?_eq_some_iff.mpr hname]
  rfl

end Member

namespace Naming

/-- An export that needs a name of its own denotes the binding of that name. -/
theorem entity?_of_needsName {facts : BuildFacts} {merged : List ModuleId} {module : ModuleId}
    {e : Export} (hmodule : module ∈ merged) (he : e ∈ linkable facts module)
    (hneeds : needsName facts module e = true) :
    entity? facts merged ⟨module, e.name⟩ = some (.binding (.unbacked module e.name)) := by
  rw [needsName, Bool.and_eq_true, Bool.not_eq_true', decide_eq_true_eq] at hneeds
  rw [entity?, resolve_of_mem_linkable he hneeds.1, entityAt?_origin_of_mem facts hmodule,
    ownerOf, if_neg hneeds.2]

end Naming

namespace NamedMembers

/-- The names that belong to somebody, as they can be read off named members. -/
def ownedNames (facts : BuildFacts) (named : NamedMembers) : List String :=
  named.members.flatMap (fun member => member.localNames.values) ++
    named.members.flatMap (Member.unbackedNames facts) ++
    named.members.filterMap Member.namespaceName ++ named.outside.values

/-- The ledger of the names of namespaces that can be read off named members. -/
def spaceLedger (named : NamedMembers) : Ledger :=
  named.members.flatMap Member.namespaceLedger ++
    named.outside.entries.map fun entry => (.namespaceOf entry.1, entry.2)

/-- The whole ledger that can be read off named members. -/
def ownerLedger (facts : BuildFacts) (named : NamedMembers) : Ledger :=
  named.members.flatMap Member.localLedger ++
    named.members.flatMap (Member.unbackedLedger facts) ++ named.spaceLedger

theorem names_ownerLedger (facts : BuildFacts) (named : NamedMembers) :
    (named.ownerLedger facts).names = named.ownedNames facts := by
  have hspaces : named.spaceLedger.names =
      named.members.filterMap Member.namespaceName ++ named.outside.values := by
    simp only [spaceLedger, Ledger.names, List.map_append, List.map_flatMap,
      Member.namespaceLedger, List.map_map, Function.comp_def, List.map_id',
      List.filterMap_eq_flatMap_toList, OrderedMap.values]
  have hlocals : Ledger.names (named.members.flatMap Member.localLedger) =
      named.members.flatMap fun member => member.localNames.values := by
    rw [Ledger.names, List.map_flatMap]
    exact List.flatMap_congr fun member _ => member.names_localLedger
  have hunbacked : Ledger.names (named.members.flatMap (Member.unbackedLedger facts)) =
      named.members.flatMap (Member.unbackedNames facts) := by
    rw [Ledger.names, List.map_flatMap]
    exact List.flatMap_congr fun member _ => member.names_unbackedLedger facts
  rw [ownerLedger, Ledger.names_append, Ledger.names_append, hlocals, hunbacked, hspaces,
    ownedNames, ← List.append_assoc]

section Account

variable {facts : BuildFacts} {modules : UniqueList ModuleId} {named : NamedMembers}
  {ledger : Ledger}

theorem mem_owners_spaceLedger_iff {owner : Owner} :
    owner ∈ named.spaceLedger.owners ↔
      (∃ member ∈ named.members, member.namespaceName.isSome = true ∧
          owner = .namespaceOf member.module) ∨
        ∃ module ∈ named.outside.keys, owner = .namespaceOf module := by
  rw [spaceLedger, Ledger.owners_append, List.mem_append]
  simp only [Ledger.owners, List.map_flatMap, List.mem_flatMap, Member.namespaceLedger,
    List.map_map, Function.comp_def, List.mem_map, Option.mem_toList,
    Option.isSome_iff_exists, OrderedMap.keys, exists_exists_and_eq_and, eq_comm (b := owner),
    exists_and_right]

/-- The names of namespaces have distinct owners. -/
theorem Account.nodup_owners_spaceLedger (h : Account facts modules named ledger)
    (houtside : ∀ module ∈ named.outside.keys, module ∉ modules) :
    named.spaceLedger.owners.Nodup := by
  have hmodules : (named.members.map Member.module).Nodup := h.map_module ▸ modules.nodup
  rw [spaceLedger, Ledger.owners_append, List.nodup_append]
  refine ⟨?_, ?_, ?_⟩
  · rw [Ledger.owners, List.map_flatMap]
    refine Ledger.nodup_flatMap_owners hmodules (fun member _ => ?_)
      fun member _ owner howner => ?_
    · cases hname : member.namespaceName <;> simp [Member.namespaceLedger, hname]
    · obtain ⟨entry, hentry, rfl⟩ := List.mem_map.mp howner
      obtain ⟨name, -, rfl⟩ := Member.mem_namespaceLedger_iff.mp hentry
      rfl
  · have hkeys := named.outside.nodup_keys.map (f := Owner.namespaceOf)
      fun _ _ heq => Owner.namespaceOf.inj heq
    rw [OrderedMap.keys, List.map_map] at hkeys
    rw [Ledger.owners, List.map_map]
    exact hkeys
  · rintro owner hinside _ houter rfl
    rw [Ledger.owners, List.map_flatMap] at hinside
    obtain ⟨member, hmember, hinside⟩ := List.mem_flatMap.mp hinside
    obtain ⟨entry, hentry, rfl⟩ := List.mem_map.mp hinside
    obtain ⟨name, -, rfl⟩ := Member.mem_namespaceLedger_iff.mp hentry
    rw [Ledger.owners, List.map_map] at houter
    obtain ⟨outer, houter, heq⟩ := List.mem_map.mp houter
    have hmodule : outer.1 = member.module := Owner.namespaceOf.inj heq
    refine houtside outer.1 (List.mem_map_of_mem houter) ?_
    rw [hmodule, ← UniqueList.mem_toList, ← h.map_module]
    exact List.mem_map_of_mem hmember

theorem Account.parts (h : Account facts modules named ledger)
    (hbound : ∀ member ∈ named.members, ∀ e ∈ Naming.linkable facts member.module,
      Naming.needsName facts member.module e = true →
        ∃ name, member.exportMap.find? e.name = some (.identifier name))
    (houtside : ∀ module ∈ named.outside.keys, module ∉ modules) :
    Parts facts named.members (named.members.flatMap (Member.unbackedLedger facts))
      named.spaceLedger where
  nodup_modules := h.map_module ▸ modules.nodup
  owners_unbacked := by
    rw [Ledger.owners, List.map_flatMap]
    exact List.flatMap_congr fun member hmember =>
      Member.owners_unbackedLedger (hbound member hmember)
  nodup_spaces := h.nodup_owners_spaceLedger houtside
  isNamespace owner howner := by
    rcases mem_owners_spaceLedger_iff.mp howner with ⟨member, -, -, heq⟩ | ⟨module, -, heq⟩
    · exact ⟨member.module, heq⟩
    · exact ⟨module, heq⟩

/-- Every entry that can be read off named members is one of their account. -/
theorem Account.ownerLedger_subset (h : Account facts modules named ledger) :
    named.ownerLedger facts ⊆ ledger := by
  intro entry hentry
  rw [ownerLedger, spaceLedger, List.mem_append, List.mem_append, List.mem_append] at hentry
  rcases hentry with (hlocal | hunbacked) | hinside | houter
  · obtain ⟨member, hmember, hlocal⟩ := List.mem_flatMap.mp hlocal
    obtain ⟨⟨localName, name⟩, hname, rfl⟩ := List.mem_map.mp hlocal
    exact (h.topLevel_iff _ _ _).mpr
      ⟨member, hmember, rfl, OrderedMap.find?_eq_some_iff.mpr hname⟩
  · obtain ⟨member, hmember, hunbacked⟩ := List.mem_flatMap.mp hunbacked
    obtain ⟨e, he, hneeds, name, hname, rfl⟩ := Member.mem_unbackedLedger_iff.mp hunbacked
    obtain ⟨entity, hentity, hwrites⟩ := h.denotes member hmember e.name _ hname
    have hmodule : member.module ∈ modules.toList := h.map_module ▸ List.mem_map_of_mem hmember
    rw [Naming.entity?_of_needsName hmodule he hneeds] at hentity
    rw [← Option.some.inj hentity] at hwrites
    cases hwrites with
    | binding howned => exact howned
  · obtain ⟨member, hmember, hinside⟩ := List.mem_flatMap.mp hinside
    obtain ⟨name, hname, rfl⟩ := Member.mem_namespaceLedger_iff.mp hinside
    exact (h.namespaceOf_iff _ _).mpr (Or.inl ⟨member, hmember, rfl, hname⟩)
  · obtain ⟨⟨module, name⟩, hname, rfl⟩ := List.mem_map.mp houter
    exact (h.namespaceOf_iff _ _).mpr (Or.inr (OrderedMap.find?_eq_some_iff.mpr hname))

/-- Every owner in the account is one that can be read off the members. -/
theorem Account.owners_subset (h : Account facts modules named ledger)
    (hparts : Parts facts named.members (named.members.flatMap (Member.unbackedLedger facts))
      named.spaceLedger) : ledger.owners ⊆ (named.ownerLedger facts).owners := by
  intro owner howner
  obtain ⟨⟨_, name⟩, hentry, rfl⟩ := List.mem_map.mp howner
  rename_i owner
  cases owner with
  | topLevel module localName =>
    exact List.mem_map_of_mem (f := Prod.fst)
      (hparts.topLevel_iff.mpr ((h.topLevel_iff _ _ _).mp hentry))
  | unbacked module exportName =>
    apply hparts.unbacked_iff.mpr
    rw [h.map_module, UniqueList.mem_toList]
    exact (h.unbacked_iff module exportName).mp howner
  | namespaceOf module =>
    rw [ownerLedger, Ledger.owners_append, List.mem_append]
    refine Or.inr (mem_owners_spaceLedger_iff.mpr ?_)
    rcases (h.namespaceOf_iff module name).mp hentry with ⟨member, hmember, rfl, hname⟩ | hname
    · exact Or.inl ⟨member, hmember, Option.isSome_iff_exists.mpr ⟨name, hname⟩, rfl⟩
    · exact Or.inr ⟨module, OrderedMap.mem_keys_iff_exists_find?.mpr ⟨name, hname⟩, rfl⟩

/-- The names of the account are those that can be read off the members. -/
theorem Account.names_perm (h : Account facts modules named ledger)
    (hparts : Parts facts named.members (named.members.flatMap (Member.unbackedLedger facts))
      named.spaceLedger) : ledger.names.Perm (named.ownedNames facts) := by
  have hperm : ledger.Perm (named.ownerLedger facts) :=
    h.sound.perm_of_subset hparts.nodup_owners h.ownerLedger_subset (h.owners_subset hparts)
  rw [← names_ownerLedger]
  exact hperm.map Prod.snd

end Account

/-- Naming binds every export for which the code of its member binds nothing. -/
theorem exists_binding_of_needsName {facts : BuildFacts} {modules : UniqueList ModuleId}
    {member : Member} (hmember : member ∈ (ofModules facts modules).members) {e : Export}
    (he : e ∈ Naming.linkable facts member.module)
    (hneeds : Naming.needsName facts member.module e = true) :
    ∃ name, member.exportMap.find? e.name = some (.identifier name) := by
  have hmodule := module_mem_of_mem_members hmember
  have hown : e.isForwarding = false := by
    rw [Naming.needsName, Bool.and_eq_true, Bool.not_eq_true'] at hneeds
    exact hneeds.1
  have hkey : e.name ∈ member.exportMap.keys := by
    refine (mem_keys_exportMap_iff hmember).mpr ⟨e, he, rfl, ?_⟩
    rw [Naming.resolve_of_mem_linkable he hown]
    exact fun _ => ⟨e, he, hown, rfl⟩
  obtain ⟨reference, hfind⟩ := OrderedMap.mem_keys_iff_exists_find?.mp hkey
  obtain ⟨ledger, haccount⟩ := exists_account facts modules
  obtain ⟨entity, hentity, hwrites⟩ := haccount.denotes member hmember e.name reference hfind
  rw [Naming.entity?_of_needsName hmodule he hneeds] at hentity
  rw [← Option.some.inj hentity] at hwrites
  cases hwrites with
  | binding _ => exact ⟨_, hfind⟩

end NamedMembers

namespace Concatenation

variable {build : Build} {root : ModuleId} {modules : List ModuleId} {unit : Concatenation}

/-- A member of a concatenation that only rebinding has seen is one that naming made, but
for its imports. -/
theorem exists_named_of_mem_values (htaps : ∀ tap ∈ build.extensions.mapTaps, tap = Rebinding.tap)
    (hbuild : (Concatenation.build build root modules).value = .ok unit) {member : Member}
    (hmember : member ∈ unit.members.values) :
    ∃ first ∈ (NamedMembers.ofModules build.toBuildFacts (UniqueList.ofList modules)).members,
      member = Rebinding.rebound build.extensions.mapTaps.length first := by
  rw [OrderedMap.values, entries_members_of_build htaps hbuild, List.map_map] at hmember
  obtain ⟨first, hfirst, rfl⟩ := List.mem_map.mp hmember
  exact ⟨first, hfirst, rfl⟩

/-- What a member of a concatenation owns: distinct names for all that its code binds, a
binding for each export for which it binds nothing, and a name for its namespace exactly
when a re-export of some member comes to that namespace. -/
structure Owns (facts : BuildFacts) (modules : List ModuleId) (member : Member) : Prop where
  mem_keys_iff : ∀ localName, localName ∈ member.localNames.keys ↔
    localName ∈ (facts.codeOf member.module).declarations ∨
      localName ∈ (facts.codeOf member.module).importBindings
  localName_unique : ∀ first second name, member.localNames.find? first = some name →
    member.localNames.find? second = some name → first = second
  unbacked : ∀ e ∈ Naming.linkable facts member.module,
    Naming.needsName facts member.module e = true →
      ∃ name, member.bindingOf? e.name = some name
  isSome_namespaceName_iff : member.namespaceName.isSome = true ↔
    ∃ other ∈ modules, ∃ e ∈ Naming.linkable facts other, e.isForwarding = true ∧
      facts.registry.resolve ⟨other, e.name⟩ = .namespaceOf member.module

theorem owns_of_build (htaps : ∀ tap ∈ build.extensions.mapTaps, tap = Rebinding.tap)
    (hbuild : (Concatenation.build build root modules).value = .ok unit) {member : Member}
    (hmember : member ∈ unit.members.values) :
    Owns build.toBuildFacts unit.modules member := by
  obtain ⟨ledger, haccount⟩ := exists_account_of_build htaps hbuild
  obtain ⟨first, hfirst, rfl⟩ := exists_named_of_mem_values htaps hbuild hmember
  refine ⟨fun localName => ?_, ?_, fun e he hneeds => ?_, ?_⟩
  · rw [haccount.mem_keys_iff _ hmember, ModuleCode.topLevelNames, List.mem_append,
      UniqueList.mem_toList]
  · intro one other name hone hother
    have howner := haccount.sound.owner_unique
      ((haccount.topLevel_iff _ _ _).mpr ⟨_, hmember, rfl, hone⟩)
      ((haccount.topLevel_iff _ _ _).mpr ⟨_, hmember, rfl, hother⟩)
    exact (Owner.topLevel.inj howner).2
  · obtain ⟨name, hname⟩ := NamedMembers.exists_binding_of_needsName hfirst he hneeds
    exact ⟨name, Member.bindingOf?_eq_some_iff.mpr hname⟩
  · rw [modules_of_build hbuild]
    refine (NamedMembers.isSome_namespaceName_iff hfirst).trans ?_
    constructor
    · rintro ⟨other, hother, e, he, hresolves⟩
      refine ⟨other, hother, e, he, ?_, hresolves⟩
      by_contra hown
      rw [Bool.not_eq_true] at hown
      rw [Naming.resolve_of_mem_linkable he hown] at hresolves
      exact Resolution.noConfusion hresolves
    · rintro ⟨other, hother, e, he, -, hresolves⟩
      exact ⟨other, hother, e, he, hresolves⟩

/-- The merged scope has one owner per name.  Its names are identifiers, and they are,
each of them once, the exports object and what the members and the modules outside own. -/
theorem scope_ownership (htaps : ∀ tap ∈ build.extensions.mapTaps, tap = Rebinding.tap)
    (hbuild : (Concatenation.build build root modules).value = .ok unit) :
    (∀ name ∈ unit.scope.names, Identifier.isIdentifier name = true) ∧
      unit.scope.names.toList.Perm
        (exportsObject :: unit.named.ownedNames build.toBuildFacts) ∧
      (exportsObject :: unit.named.ownedNames build.toBuildFacts).Nodup ∧
      ∀ member ∈ unit.members.values, Owns build.toBuildFacts unit.modules member := by
  obtain ⟨ledger, haccount⟩ := exists_account_of_build htaps hbuild
  have hbound : ∀ member ∈ unit.named.members,
      ∀ e ∈ Naming.linkable build.toBuildFacts member.module,
        Naming.needsName build.toBuildFacts member.module e = true →
          ∃ name, member.exportMap.find? e.name = some (.identifier name) := by
    intro member hmember e he hneeds
    obtain ⟨name, hname⟩ := (owns_of_build htaps hbuild hmember).unbacked e he hneeds
    exact ⟨name, Member.bindingOf?_eq_some_iff.mp hname⟩
  have houtside : ∀ module ∈ unit.named.outside.keys, module ∉ UniqueList.ofList modules := by
    intro module hmodule
    obtain ⟨name, hname⟩ := OrderedMap.mem_keys_iff_exists_find?.mp hmodule
    obtain ⟨-, -, members, rewritten, -, rfl⟩ := exists_of_build_eq_ok hbuild
    exact NamedMembers.notMem_of_find?_outside hname
  have hnames : unit.scope.names.toList = exportsObject :: ledger.names := haccount.toList_names
  have hperm : unit.scope.names.toList.Perm
      (exportsObject :: unit.named.ownedNames build.toBuildFacts) := by
    rw [hnames]
    exact (haccount.names_perm (haccount.parts hbound houtside)).cons exportsObject
  refine ⟨fun name hname => ?_, hperm, hperm.nodup_iff.mp unit.scope.names.nodup, fun member =>
    owns_of_build htaps hbuild⟩
  rw [← UniqueList.mem_toList, hnames] at hname
  rcases List.mem_cons.mp hname with rfl | hname
  · decide
  · exact haccount.sound.isIdentifier name hname

/-- A build in which everything that can own a name does.  Both members declare a binding of one
name, and the second one declares and imports another.  The root exports something that it does
not bind, the namespace of the other member and a property of a module outside.  Two exports are
called differently from the bindings behind them, a declaration and an import. -/
def ownersBuild : Build :=
  let own (name : String) : Export := ⟨name, .provided, ∅, none, none⟩
  { (Build.empty default).addMapTap Rebinding.tap with
    registry := ExportRegistry.ofEdits [.register ⟨0⟩ "./index.js", .register ⟨1⟩ "./util.js",
      .addExport ⟨0⟩ (own "main"), .addExport ⟨0⟩ (own "extra"),
      .addExport ⟨0⟩ ⟨"util", .provided, ∅, some ⟨⟨1⟩, none⟩, none⟩,
      .addExport ⟨0⟩ ⟨"read", .provided, ∅, some ⟨⟨2⟩, some "read"⟩, none⟩,
      .addExport ⟨1⟩ (own "combine")]
    code := ((∅ : CodeTable).edit ⟨0⟩ "main" fun code =>
        { code with
          declarations := UniqueList.ofList ["start"]
          backing := OrderedMap.ofList [("main", "start")] }).edit ⟨1⟩ "main" fun code =>
      { code with
        declarations := UniqueList.ofList ["extra", "start"]
        backing := OrderedMap.ofList [("combine", "join")]
        imports := [⟨"node:path", [⟨"join", "join"⟩]⟩] } }

/-- Seven names beside the exports object, each of another kind or another binding.  An export
that a binding backs owns none, whatever it is called. -/
theorem scope_ownership_of_owners :
    ∃ unit, (Concatenation.build ownersBuild ⟨0⟩ [⟨0⟩, ⟨1⟩]).value = .ok unit ∧
      unit.named.ownedNames ownersBuild.toBuildFacts = ["start", "extra", "start_1", "join",
        "extra_1", "util_namespaceObject", "module_2_namespace"] ∧
      unit.scope.names.toList.Perm (exportsObject :: ["start", "extra", "start_1", "join",
        "extra_1", "util_namespaceObject", "module_2_namespace"]) ∧
      (exportsObject :: unit.named.ownedNames ownersBuild.toBuildFacts).Nodup ∧
      (unit.exportMap? ⟨0⟩).map OrderedMap.entries = some [("main", .identifier "start"),
        ("extra", .identifier "extra_1"), ("util", .identifier "util_namespaceObject"),
        ("read", .expression "module_2_namespace.read")] ∧
      (unit.exportMap? ⟨1⟩).map OrderedMap.entries = some [("combine", .identifier "join")] := by
  obtain ⟨unit, hbuild, hread⟩ := exists_eq_ok_of_map_toOption
    (Concatenation.build ownersBuild ⟨0⟩ [⟨0⟩, ⟨1⟩]).value
    (fun unit => (unit.named.ownedNames ownersBuild.toBuildFacts,
      (unit.exportMap? ⟨0⟩).map OrderedMap.entries, (unit.exportMap? ⟨1⟩).map OrderedMap.entries))
    (y := (["start", "extra", "start_1", "join", "extra_1", "util_namespaceObject",
      "module_2_namespace"], some [("main", .identifier "start"),
        ("extra", .identifier "extra_1"), ("util", .identifier "util_namespaceObject"),
        ("read", .expression "module_2_namespace.read")], some [("combine", .identifier "join")]))
    (by decide +kernel)
  obtain ⟨howned, hbacked⟩ := Prod.mk.inj hread
  obtain ⟨hmain, hcombine⟩ := Prod.mk.inj hbacked
  obtain ⟨-, hperm, hnodup, -⟩ :=
    scope_ownership (fun _ => List.mem_singleton.mp) hbuild
  rw [howned] at hperm
  exact ⟨unit, hbuild, howned, hperm, hnodup, hmain, hcombine⟩

end Concatenation

end ModuleLinker
