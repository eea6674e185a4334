import ModuleLinker.Proofs.Concatenation.Denotation
import ModuleLinker.Proofs.Concatenation.Tapping
import ModuleLinker.Proofs.Exports.Histories

/-!
# Adding members

In the first round every top-level binding of every member gets its name, before any export
or namespace asks for one.  So members that are added at the end of a list get theirs after
those of the earlier members, and whatever an earlier member refers to by its own bindings
stays as it was.  Exports without a binding of their own are not safe from this: they come
after all top-level bindings, those of added members too.
-/

namespace ModuleLinker

namespace Naming

/-- Members that are listed later are entered after the earlier ones. -/
theorem enterMembers_append (facts : BuildFacts) (index : Nat) (scope : Scope)
    (first second : List ModuleId) :
    (enterMembers facts index scope (first ++ second)).2 =
      (enterMembers facts index scope first).2 ++
        (enterMembers facts (index + first.length)
          (enterMembers facts index scope first).1 second).2 := by
  induction first generalizing index scope with
  | nil => rfl
  | cons module rest ih =>
    rw [List.cons_append, enterMembers, enterMembers, List.length_cons, ← Nat.add_assoc,
      Nat.add_right_comm]
    exact congrArg (List.cons _) (ih (index + 1) _)

/-- An export that is listed for a module and for which the code of the module itself binds
something. -/
structure IsBacked (facts : BuildFacts) (module : ModuleId) (e : Export) : Prop where
  listed : facts.registry.export? ⟨module, e.name⟩ = some e
  own : e.isForwarding = false
  backing_mem : (facts.codeOf module).backingOf e.name ∈ (facts.codeOf module).topLevelNames

variable {facts : BuildFacts} {merged : List ModuleId} {module : ModuleId} {e : Export}

/-- It denotes this binding. -/
theorem IsBacked.entity?_eq (h : IsBacked facts module e) (hmodule : module ∈ merged)
    (he : e ∈ linkable facts module) :
    entity? facts merged ⟨module, e.name⟩ =
      some (.binding (.topLevel module ((facts.codeOf module).backingOf e.name))) := by
  rw [entity?, resolve_of_mem_linkable he h.own, entityAt?_origin_of_mem facts hmodule, ownerOf,
    if_pos h.backing_mem]

end Naming

namespace NamedMembers

theorem nodup_module_entered (facts : BuildFacts) (modules : UniqueList ModuleId) :
    ((entered facts modules).2.map Member.module).Nodup :=
  map_module_entered facts modules ▸ modules.nodup

/-- Members enter as they do when more modules are listed after them. -/
theorem entered_subset_append (facts : BuildFacts) (modules more : List ModuleId) :
    (entered facts (UniqueList.ofList modules)).2 ⊆
      (entered facts (UniqueList.ofList (modules ++ more))).2 := by
  obtain ⟨fresh, hfresh⟩ := UniqueList.exists_toList_ofList_append modules more
  rw [entered, entered, hfresh, Naming.enterMembers_append]
  exact List.subset_append_left _ _

end NamedMembers

namespace Concatenation

variable {build : Build} {root : ModuleId} {modules : List ModuleId} {unit : Concatenation}
  {module : ModuleId} {member : Member} {e : Export}

theorem exportMap?_of_find? (h : unit.members.find? module = some member) :
    unit.exportMap? module = some member.exportMap := by
  rw [exportMap?, h, Option.map_some]

/-- A member has the local names with which it entered. -/
theorem exists_entered_of_find? (htaps : ∀ tap ∈ build.extensions.mapTaps, tap = Rebinding.tap)
    (hbuild : (Concatenation.build build root modules).value = .ok unit)
    (hmember : unit.members.find? module = some member) :
    ∃ first ∈ (NamedMembers.entered build.toBuildFacts (UniqueList.ofList modules)).2,
      first.module = module ∧ first.localNames = member.localNames := by
  rw [OrderedMap.find?_eq_some_iff, entries_members_of_build htaps hbuild, List.mem_map] at hmember
  obtain ⟨named, hnamed, heq⟩ := hmember
  obtain ⟨rfl, rfl⟩ := Prod.mk.inj heq
  have hmap := NamedMembers.map_members_ofModules
    (fun member => (member.module, member.localNames)) (fun _ _ _ => rfl) build.toBuildFacts
    (UniqueList.ofList modules)
  have hmem := hmap ▸ List.mem_map_of_mem
    (f := fun member : Member => (member.module, member.localNames)) hnamed
  obtain ⟨first, hfirst, hsame⟩ := List.mem_map.mp hmem
  exact ⟨first, hfirst, Prod.mk.inj hsame⟩

/-- The entry of an export with a binding of its own is the new name of the binding. -/
theorem find?_exportMap_of_mem_linkable
    (htaps : ∀ tap ∈ build.extensions.mapTaps, tap = Rebinding.tap)
    (hbuild : (Concatenation.build build root modules).value = .ok unit)
    (hmember : unit.members.find? module = some member)
    (hbacked : Naming.IsBacked build.toBuildFacts module e)
    (he : e ∈ Naming.linkable build.toBuildFacts module) :
    member.exportMap.find? e.name =
      (member.localNames.find? ((build.toBuildFacts.codeOf module).backingOf e.name)).map
        Reference.identifier := by
  obtain ⟨ledger, haccount⟩ := exists_account_of_build htaps hbuild
  have hfind {other : Member} : unit.members.find? module = some other ↔
      other ∈ unit.members.values ∧ other.module = module :=
    find?_members_iff_of_build htaps hbuild
  obtain ⟨hvalue, rfl⟩ := hfind.mp hmember
  have hreference : Naming.HasReference build.toBuildFacts unit.modules
      (build.registry.resolve ⟨member.module, e.name⟩) := by
    rw [Naming.resolve_of_mem_linkable he hbacked.own]
    exact fun _ => ⟨e, he, hbacked.own, rfl⟩
  obtain ⟨reference, hentry⟩ := OrderedMap.mem_keys_iff_exists_find?.mp
    ((mem_keys_exportMap_iff_of_build hbuild (exportMap?_of_find? hmember)).mpr
      ⟨e, he, rfl, hreference⟩)
  obtain ⟨entity, hentity, hwrites⟩ := haccount.denotes member hvalue e.name reference hentry
  have hmodule : member.module ∈ (UniqueList.ofList modules).toList := by
    rw [← haccount.map_module]
    exact List.mem_map_of_mem hvalue
  rw [hbacked.entity?_eq hmodule he, Option.some.injEq] at hentity
  subst hentity
  cases hwrites with
  | binding hname =>
    -- The ledger may have the name from any member, but no other one is of this module.
    obtain ⟨other, hother, hsame, hlocal⟩ := (haccount.topLevel_iff _ _ _).mp hname
    obtain rfl := Option.some.inj (hmember.symm.trans (hfind.mpr ⟨hother, hsame⟩))
    rw [hentry, hlocal, Option.map_some]

/-- An export that cannot be linked has no entry. -/
theorem find?_exportMap_of_notMem_linkable
    (hbuild : (Concatenation.build build root modules).value = .ok unit)
    (hmember : unit.members.find? module = some member)
    (hlisted : build.registry.export? ⟨module, e.name⟩ = some e)
    (he : e ∉ Naming.linkable build.toBuildFacts module) :
    member.exportMap.find? e.name = none := by
  rw [OrderedMap.find?_eq_none_iff,
    mem_keys_exportMap_iff_of_build hbuild (exportMap?_of_find? hmember)]
  rintro ⟨other, hother, hname, -⟩
  have hsame := Naming.export?_of_mem_linkable hother
  rw [hname] at hsame
  exact he (Option.some.inj (hsame.symm.trans hlisted) ▸ hother)

/-- Merging registered modules around one of them succeeds if all taps rebind. -/
theorem exists_build_eq_ok (htaps : ∀ tap ∈ build.extensions.mapTaps, tap = Rebinding.tap)
    (hroot : root ∈ modules)
    (hregistered : ∀ module ∈ modules, build.registry.isRegistered module = true) :
    ∃ unit, (Concatenation.build build root modules).value = .ok unit := by
  obtain ⟨changed, htapped⟩ := tapMembers_of_forall_eq_rebinding htaps
    (NamedMembers.ofModules build.toBuildFacts (UniqueList.ofList modules)).members
  have hrefusal : refusal? build.registry root modules = none := by
    have hcontains := UniqueList.contains_iff.mpr (UniqueList.mem_ofList.mpr hroot)
    rw [refusal?, if_pos hcontains, firstUnregistered?_eq_none hregistered, Option.map_none]
  cases hbuild : (Concatenation.build build root modules).value with
  | ok unit => exact ⟨unit, rfl⟩
  | error reason =>
    rw [build_eq_error_iff htapped, hrefusal] at hbuild
    exact absurd hbuild (Option.some_ne_none reason).symm

/-- Nothing about a concatenation depends on modules that are listed again. -/
theorem build_append_cons_of_mem (build : Build) (root : ModuleId) {before : List ModuleId}
    (hmodule : module ∈ before) (after : List ModuleId) :
    Concatenation.build build root (before ++ module :: after) =
      Concatenation.build build root (before ++ after) := by
  rw [Concatenation.build, Concatenation.build, UniqueList.ofList_append_cons_of_mem hmodule]

/-- A concatenation that has all modules of a smaller one, with the same local names and with
the same references for exports that have bindings of their own. -/
structure Extends (facts : BuildFacts) (larger smaller : Concatenation) : Prop where
  localNames_eq : ∀ module member, smaller.members.find? module = some member →
    ∃ other, larger.members.find? module = some other ∧ other.localNames = member.localNames
  reference?_eq : ∀ module ∈ smaller.modules, ∀ e, Naming.IsBacked facts module e →
    larger.reference? ⟨module, e.name⟩ = smaller.reference? ⟨module, e.name⟩

/-- A member is still there, with its local names, when more modules are listed. -/
theorem exists_find?_of_append (htaps : ∀ tap ∈ build.extensions.mapTaps, tap = Rebinding.tap)
    {more : List ModuleId} {larger : Concatenation}
    (hbuild : (Concatenation.build build root modules).value = .ok unit)
    (hlarger : (Concatenation.build build root (modules ++ more)).value = .ok larger)
    (hmember : unit.members.find? module = some member) :
    ∃ other, larger.members.find? module = some other ∧ other.localNames = member.localNames := by
  obtain ⟨first, hentered, hmodule, hnames⟩ := exists_entered_of_find? htaps hbuild hmember
  have hfirst := NamedMembers.entered_subset_append build.toBuildFacts modules more hentered
  have hmem : module ∈ larger.modules := by
    rw [modules_of_build hlarger, ← hmodule]
    exact NamedMembers.module_mem_of_mem_entered hfirst
  obtain ⟨other, hother⟩ := OrderedMap.mem_keys_iff_exists_find?.mp hmem
  obtain ⟨second, hsecond, hsame, hotherNames⟩ := exists_entered_of_find? htaps hlarger hother
  have heq := List.inj_on_of_nodup_map
    (NamedMembers.nodup_module_entered build.toBuildFacts (UniqueList.ofList (modules ++ more)))
    hsecond hfirst (hsame.trans hmodule.symm)
  exact ⟨other, hother, by rw [← hotherNames, heq, hnames]⟩

/-- What is built from a longer list of modules extends what is built from its beginning. -/
theorem extends_of_build (htaps : ∀ tap ∈ build.extensions.mapTaps, tap = Rebinding.tap)
    {more : List ModuleId} {larger : Concatenation}
    (hbuild : (Concatenation.build build root modules).value = .ok unit)
    (hlarger : (Concatenation.build build root (modules ++ more)).value = .ok larger) :
    larger.Extends build.toBuildFacts unit where
  localNames_eq _ _ hmember := exists_find?_of_append htaps hbuild hlarger hmember
  reference?_eq module hmodule e hbacked := by
    obtain ⟨member, hmember⟩ := OrderedMap.mem_keys_iff_exists_find?.mp hmodule
    obtain ⟨other, hother, hnames⟩ := exists_find?_of_append htaps hbuild hlarger hmember
    rw [reference?, reference?, exportMap?_of_find? hmember, exportMap?_of_find? hother,
      Option.bind_some, Option.bind_some]
    by_cases he : e ∈ Naming.linkable build.toBuildFacts module
    · rw [find?_exportMap_of_mem_linkable htaps hbuild hmember hbacked he,
        find?_exportMap_of_mem_linkable htaps hlarger hother hbacked he, hnames]
    · rw [find?_exportMap_of_notMem_linkable hbuild hmember hbacked.listed he,
        find?_exportMap_of_notMem_linkable hlarger hother hbacked.listed he]

/-- Adding members to a concatenation renames nothing in the earlier ones: whatever registered
modules are listed after its members, also when they were listed before, what is built extends
it.  A module that is listed again has no effect at all. -/
theorem build_append_extends (htaps : ∀ tap ∈ build.extensions.mapTaps, tap = Rebinding.tap)
    (hroot : root ∈ modules)
    (hregistered : ∀ module ∈ modules, build.registry.isRegistered module = true) :
    ∃ unit, (Concatenation.build build root modules).value = .ok unit ∧
      (∀ module, module ∈ unit.modules ↔ module ∈ modules) ∧
      (∀ more : List ModuleId, (∀ module ∈ more, build.registry.isRegistered module = true) →
        ∃ larger, (Concatenation.build build root (modules ++ more)).value = .ok larger ∧
          larger.Extends build.toBuildFacts unit) ∧
      ∀ before module after, modules = before ++ after → module ∈ before →
        Concatenation.build build root (before ++ module :: after) =
          Concatenation.build build root modules := by
  obtain ⟨unit, hbuild⟩ := exists_build_eq_ok htaps hroot hregistered
  refine ⟨unit, hbuild, fun module => ?_, fun more hmore => ?_, ?_⟩
  · rw [modules_of_build hbuild, UniqueList.mem_toList, UniqueList.mem_ofList]
  · have hall : ∀ module ∈ modules ++ more, build.registry.isRegistered module = true :=
      List.forall_mem_append.mpr ⟨hregistered, hmore⟩
    obtain ⟨larger, hlarger⟩ := exists_build_eq_ok htaps (List.mem_append_left more hroot) hall
    exact ⟨larger, hlarger, extends_of_build htaps hbuild hlarger⟩
  · rintro before module after rfl hmodule
    exact build_append_cons_of_mem build root hmodule after

/-- A build of two modules.  The first exports a declaration and an import under other names, and
`total` without a binding; the second declares all these names. -/
def extendedBuild : Build :=
  let own (name : String) : Export := ⟨name, .provided, ∅, none, none⟩
  { (Build.empty default).addMapTap Rebinding.tap with
    registry := ExportRegistry.ofEdits [.register ⟨0⟩ "./index.js", .register ⟨1⟩ "./util.js",
      .addExport ⟨0⟩ (own "value"), .addExport ⟨0⟩ (own "combine"), .addExport ⟨0⟩ (own "total")]
    code := ((∅ : CodeTable).edit ⟨0⟩ "main" fun code =>
        { code with
          declarations := UniqueList.ofList ["amount"]
          backing := OrderedMap.ofList [("value", "amount"), ("combine", "join")]
          imports := [⟨"node:path", [⟨"join", "join"⟩]⟩] }).edit ⟨1⟩ "main" fun code =>
      { code with
        declarations := UniqueList.ofList ["total", "value", "combine", "amount", "join"] } }

/-- The second module takes the name of the export without a binding, and leaves the backed ones
alone.  That the first module is listed again has no effect. -/
theorem build_append_extends_without_binding :
    ∃ unit larger, (Concatenation.build extendedBuild ⟨0⟩ [⟨0⟩]).value = .ok unit ∧
      (Concatenation.build extendedBuild ⟨0⟩ [⟨0⟩, ⟨1⟩, ⟨0⟩]).value = .ok larger ∧
      larger.Extends extendedBuild.toBuildFacts unit ∧
      larger.reference? ⟨⟨0⟩, "value"⟩ = some (.identifier "amount") ∧
      larger.reference? ⟨⟨0⟩, "combine"⟩ = some (.identifier "join") ∧
      unit.reference? ⟨⟨0⟩, "total"⟩ = some (.identifier "total") ∧
      larger.reference? ⟨⟨0⟩, "total"⟩ = some (.identifier "total_1") ∧
      Concatenation.build extendedBuild ⟨0⟩ [⟨0⟩, ⟨0⟩] =
        Concatenation.build extendedBuild ⟨0⟩ [⟨0⟩] := by
  have htaps : ∀ tap ∈ extendedBuild.extensions.mapTaps, tap = Rebinding.tap := fun _ =>
    List.mem_singleton.mp
  have hroot : (⟨0⟩ : ModuleId) ∈ [(⟨0⟩ : ModuleId)] := List.mem_cons_self
  obtain ⟨unit, hbuild, -, hmore, hagain⟩ := build_append_extends htaps hroot (by decide)
  obtain ⟨larger, hlarger, hextends⟩ := hmore [⟨1⟩, ⟨0⟩] (by decide)
  have hsmall : (Concatenation.build extendedBuild ⟨0⟩ [⟨0⟩]).value.toOption.map
      (fun unit => unit.reference? ⟨⟨0⟩, "total"⟩) = some (some (.identifier "total")) := by
    decide +kernel
  have hlarge : (Concatenation.build extendedBuild ⟨0⟩ [⟨0⟩, ⟨1⟩, ⟨0⟩]).value.toOption.map
      (fun unit => (unit.reference? ⟨⟨0⟩, "value"⟩, unit.reference? ⟨⟨0⟩, "combine"⟩,
        unit.reference? ⟨⟨0⟩, "total"⟩)) = some (some (.identifier "amount"),
          some (.identifier "join"), some (.identifier "total_1")) := by
    decide +kernel
  rw [hbuild] at hsmall
  rw [List.singleton_append] at hlarger
  rw [hlarger] at hlarge
  obtain ⟨hvalue, hothers⟩ := Prod.mk.inj (Option.some.inj hlarge)
  obtain ⟨hcombine, htotal⟩ := Prod.mk.inj hothers
  exact ⟨unit, larger, hbuild, hlarger, hextends, hvalue, hcombine, Option.some.inj hsmall, htotal,
    hagain [⟨0⟩] ⟨0⟩ [] rfl List.mem_cons_self⟩

end Concatenation

end ModuleLinker
