import Mathlib.Logic.Function.Iterate
import ModuleLinker.Concatenation.Basic
import ModuleLinker.Imports.Rebinding
import ModuleLinker.Proofs.Naming.Accounts

/-!
# Building a concatenation

A concatenation is built by naming its members and then showing them to the map
taps.  Rebinding is a map tap that never fails and changes nothing but imports, so
where it is the only kind of tap, a concatenation that is built has the names that
naming gave out.
-/

namespace ModuleLinker

/-- What can be read off a result is read off the value with which it succeeded. -/
theorem exists_eq_ok_of_map_toOption {ε α β : Type} (result : Except ε α) (f : α → β) {y : β}
    (h : result.toOption.map f = some y) : ∃ value, result = .ok value ∧ f value = y := by
  cases result with
  | error reason => exact absurd h (by simp [Except.toOption])
  | ok value => exact ⟨value, rfl, Option.some.inj h⟩

namespace Rebinding

/-- The import statements of a member with their final bindings. -/
def rebindAll (map : ExportMap) (localNames : OrderedMap String String)
    (imports : List ImportStatement) : List ImportStatement :=
  imports.map (rebindStatement map localNames)

/-- A member whose imports were rebound as often as there are rounds. -/
def rebound (rounds : Nat) (member : Member) : Member :=
  { member with
    imports := (rebindAll member.exportMap member.localNames)^[rounds] member.imports }

end Rebinding

namespace MapTap

theorem eq_of_mem_of_eq_singleton {taps : List MapTap} {only : MapTap} (h : taps = [only]) :
    ∀ tap ∈ taps, tap = only := by
  rw [h]
  exact fun _ => List.mem_singleton.mp

/-- A map lacks none of its own names. -/
theorem missingIn_self (map : ExportMap) : missingIn map map = [] := by
  rw [missingIn, List.filter_eq_nil_iff]
  intro name hname
  rw [OrderedMap.contains_iff.mpr hname]
  exact Bool.false_ne_true

/-- Taps that rebind never fail, and change nothing but imports. -/
theorem runAll_of_forall_eq_rebinding (module : ModuleId) {taps : List MapTap}
    (htaps : ∀ tap ∈ taps, tap = Rebinding.tap) (current : Rewritten) (member : Member) :
    ∃ changed, (runAll module taps current member).value =
      ({ member with
          imports :=
            (Rebinding.rebindAll current.map member.localNames)^[taps.length] member.imports },
        .ok ⟨current.map, changed⟩) := by
  induction taps generalizing current member with
  | nil => exact ⟨current.changed, rfl⟩
  | cons tap rest ih =>
    have hrest : ∀ other ∈ rest, other = Rebinding.tap := fun other hother =>
      htaps other (List.mem_cons_of_mem _ hother)
    rw [htaps tap List.mem_cons_self, runAll, Journaled.value_bind, Rebinding.tap]
    by_cases hsame : Rebinding.rebindAll current.map member.localNames member.imports =
        member.imports
    · obtain ⟨changed, hrun⟩ := ih hrest current
        { member with
          imports := Rebinding.rebindAll current.map member.localNames member.imports }
      refine ⟨changed, ?_⟩
      rw [Rebinding.rebindAll] at hsame
      simp only [Journaled.value_pure, if_pos hsame]
      exact hrun
    · obtain ⟨changed, hrun⟩ := ih hrest ⟨current.map, true⟩
        { member with
          imports := Rebinding.rebindAll current.map member.localNames member.imports }
      refine ⟨changed, ?_⟩
      rw [Rebinding.rebindAll] at hsame
      simp only [Journaled.value_pure, if_neg hsame, missingIn_self]
      exact hrun

/-- A single tap that rebinds reports a change exactly when it changed an import. -/
theorem runAll_rebinding (module : ModuleId) (map : ExportMap) (member : Member) :
    (runAll module [Rebinding.tap] ⟨map, false⟩ member).value =
      ({ member with imports := Rebinding.rebindAll map member.localNames member.imports },
        .ok ⟨map, decide (Rebinding.rebindAll map member.localNames member.imports ≠
          member.imports)⟩) := by
  rw [runAll, Journaled.value_bind, Rebinding.tap]
  by_cases hsame : Rebinding.rebindAll map member.localNames member.imports = member.imports
  · rw [decide_eq_false (not_not_intro hsame)]
    rw [Rebinding.rebindAll] at hsame
    simp only [Journaled.value_pure, if_pos hsame]
    rfl
  · rw [decide_eq_true hsame]
    rw [Rebinding.rebindAll] at hsame
    simp only [Journaled.value_pure, if_neg hsame, missingIn_self]
    rfl

end MapTap

namespace NamedMembers

/-- Rebinding leaves the account of the names as it is. -/
theorem Account.rebound {facts : BuildFacts} {modules : UniqueList ModuleId}
    {named : NamedMembers} {ledger : Ledger} (h : Account facts modules named ledger)
    (rounds : Nat) :
    Account facts modules { named with members := named.members.map (Rebinding.rebound rounds) }
      ledger where
  toList_names := h.toList_names
  sound := h.sound
  map_module := by
    rw [List.map_map]
    exact h.map_module
  mem_keys_iff := List.forall_mem_map.mpr h.mem_keys_iff
  topLevel_iff module localName name := by
    simp only [h.topLevel_iff, List.mem_map, exists_exists_and_eq_and]
    rfl
  unbacked_iff := h.unbacked_iff
  namespaceOf_iff module name := by
    simp only [h.namespaceOf_iff, List.mem_map, exists_exists_and_eq_and]
    rfl
  denotes := List.forall_mem_map.mpr h.denotes

end NamedMembers

namespace Concatenation

/-- The members as taps that rebind leave them. -/
theorem tapMembers_of_forall_eq_rebinding {taps : List MapTap}
    (htaps : ∀ tap ∈ taps, tap = Rebinding.tap) (members : List Member) :
    ∃ changed, (tapMembers taps members).value =
      .ok (members.map fun member => (member.module, Rebinding.rebound taps.length member),
        changed) := by
  induction members with
  | nil => exact ⟨false, rfl⟩
  | cons member rest ih =>
    obtain ⟨first, hfirst⟩ := MapTap.runAll_of_forall_eq_rebinding member.module htaps
      ⟨member.exportMap, false⟩ member
    obtain ⟨later, hlater⟩ := ih
    refine ⟨first || later, ?_⟩
    rw [tapMembers, Journaled.value_bind, hfirst]
    simp only [Journaled.value_bind, hlater, Journaled.value_pure]
    rfl

/-- Whether rebinding would change an import of a member. -/
def isRebound (member : Member) : Bool :=
  decide (Rebinding.rebindAll member.exportMap member.localNames member.imports ≠ member.imports)

/-- The members as a single tap that rebinds leaves them. -/
theorem tapMembers_rebinding (members : List Member) :
    (tapMembers [Rebinding.tap] members).value =
      .ok (members.map fun member => (member.module, Rebinding.rebound 1 member),
        members.any isRebound) := by
  induction members with
  | nil => rfl
  | cons member rest ih =>
    rw [tapMembers, Journaled.value_bind, MapTap.runAll_rebinding]
    simp only [Journaled.value_bind, ih, Journaled.value_pure]
    rfl

/-- Without taps the members stay as they are. -/
theorem tapMembers_nil (members : List Member) :
    (tapMembers [] members).value =
      .ok (members.map fun member => (member.module, member), false) := by
  induction members with
  | nil => rfl
  | cons member rest ih =>
    rw [tapMembers, Journaled.value_bind, MapTap.runAll]
    simp only [Journaled.value_pure, Journaled.value_bind, ih]
    rfl

/-- What showing a list of members to map taps consists of. -/
theorem exists_of_tapMembers_cons_eq_ok {taps : List MapTap} {member : Member}
    {rest : List Member} {entries : List (ModuleId × Member)} {changed : Bool}
    (h : (tapMembers taps (member :: rest)).value = .ok (entries, changed)) :
    ∃ after rewritten later laterChanged,
      (MapTap.runAll member.module taps ⟨member.exportMap, false⟩ member).value =
          (after, .ok rewritten) ∧
        (tapMembers taps rest).value = .ok (later, laterChanged) ∧
        entries = (member.module, { after with exportMap := rewritten.map }) :: later ∧
        changed = (rewritten.changed || laterChanged) := by
  rw [tapMembers, Journaled.value_bind] at h
  rcases hrun : (MapTap.runAll member.module taps ⟨member.exportMap, false⟩ member).value
    with ⟨after, outcome⟩
  rw [hrun] at h
  dsimp only at h
  split at h
  · exact absurd h (by simp)
  · rename_i rewritten
    rw [Journaled.value_bind] at h
    split at h
    · exact absurd h (by simp)
    · rename_i later laterChanged hrest
      obtain ⟨rfl, rfl⟩ := Prod.mk.inj (Except.ok.inj h)
      exact ⟨after, rewritten, later, laterChanged, rfl, hrest, rfl, rfl⟩

/-- Whatever the taps do, a member that they have seen stands under its module. -/
theorem map_fst_of_tapMembers_eq_ok {taps : List MapTap} {members : List Member}
    {entries : List (ModuleId × Member)} {changed : Bool}
    (h : (tapMembers taps members).value = .ok (entries, changed)) :
    entries.map Prod.fst = members.map Member.module := by
  induction members generalizing entries changed with
  | nil =>
    obtain ⟨rfl, -⟩ := Prod.mk.inj (Except.ok.inj h)
    rfl
  | cons member rest ih =>
    obtain ⟨after, rewritten, later, laterChanged, -, hrest, rfl, -⟩ :=
      exists_of_tapMembers_cons_eq_ok h
    rw [List.map_cons, List.map_cons, ih hrest]

/-- What there is to a concatenation that was built: its root is one of distinct
registered modules, and the taps have seen all members. -/
theorem exists_of_build_eq_ok {build : Build} {root : ModuleId} {modules : List ModuleId}
    {unit : Concatenation} (h : (Concatenation.build build root modules).value = .ok unit) :
    root ∈ modules ∧ (∀ module ∈ modules, build.registry.isRegistered module = true) ∧
      ∃ members rewritten,
        (tapMembers build.extensions.mapTaps (NamedMembers.ofModules build.toBuildFacts
          (UniqueList.ofList modules)).members).value = .ok (members, rewritten) ∧
        unit = {
          root
          runtime := build.runtime
          members := OrderedMap.ofList members
          scope := (NamedMembers.ofModules build.toBuildFacts (UniqueList.ofList modules)).scope
          outside :=
            (NamedMembers.ofModules build.toBuildFacts (UniqueList.ofList modules)).outside
          rewritten } := by
  rw [Concatenation.build] at h
  split at h
  · exact absurd h (by simp)
  · rename_i hroot
    split at h
    · exact absurd h (by simp)
    · rename_i hregistered
      rw [Journaled.value_bind] at h
      split at h
      · exact absurd h (by simp)
      · rename_i members rewritten htapped
        refine ⟨?_, ?_, members, rewritten, htapped, (Except.ok.inj h).symm⟩
        · simpa using hroot
        · intro module hmodule
          have hfound := List.find?_eq_none.mp hregistered module
            (UniqueList.mem_ofList.mpr hmodule)
          simpa using hfound

theorem firstUnregistered?_eq_none {registry : ExportRegistry} {modules : List ModuleId}
    (hregistered : ∀ module ∈ modules, registry.isRegistered module = true) :
    firstUnregistered? registry (UniqueList.ofList modules).toList = none := by
  rw [firstUnregistered?, List.find?_eq_none]
  intro module hmodule
  rw [hregistered module (UniqueList.mem_ofList.mp hmodule)]
  exact Bool.false_ne_true

/-- The reason why modules cannot be merged around a root, if there is one that shows
before any tap is asked. -/
def refusal? (registry : ExportRegistry) (root : ModuleId) (modules : List ModuleId) :
    Option LinkError :=
  if (UniqueList.ofList modules).contains root then
    (firstUnregistered? registry (UniqueList.ofList modules).toList).map LinkError.unregistered
  else some (.rootOutside root)

/-- If the taps have nothing against the named members, merging fails exactly for a reason
that shows before. -/
theorem build_eq_error_iff {build : Build} {root : ModuleId} {modules : List ModuleId}
    {tapped : List (ModuleId × Member) × Bool} {reason : LinkError}
    (htapped : (tapMembers build.extensions.mapTaps (NamedMembers.ofModules build.toBuildFacts
      (UniqueList.ofList modules)).members).value = .ok tapped) :
    (Concatenation.build build root modules).value = .error reason ↔
      refusal? build.registry root modules = some reason := by
  rw [Concatenation.build, refusal?]
  cases (UniqueList.ofList modules).contains root with
  | false => simp
  | true =>
    cases firstUnregistered? build.registry (UniqueList.ofList modules).toList with
    | some module => simp
    | none =>
      simp only [Bool.not_true, Bool.false_eq_true, if_false, Journaled.value_bind, htapped,
        Journaled.value_pure, if_true, Option.map_none, reduceCtorEq]

/-- The concatenation that a single tap that rebinds makes of named members. -/
def ofNamed (root : ModuleId) (runtime : Runtime) (named : NamedMembers) : Concatenation where
  root := root
  runtime := runtime
  members := OrderedMap.ofList (named.members.map fun member =>
    (member.module, Rebinding.rebound 1 member))
  scope := named.scope
  outside := named.outside
  rewritten := named.members.any isRebound

@[simp] theorem scope_ofNamed (root : ModuleId) (runtime : Runtime) (named : NamedMembers) :
    (ofNamed root runtime named).scope = named.scope := rfl

@[simp] theorem rewritten_ofNamed (root : ModuleId) (runtime : Runtime) (named : NamedMembers) :
    (ofNamed root runtime named).rewritten = named.members.any isRebound := rfl

/-- Merging registered modules around one of them succeeds if the only tap rebinds. -/
theorem build_eq_ok (build : Build) {root : ModuleId} {modules : List ModuleId}
    (htaps : build.extensions.mapTaps = [Rebinding.tap]) (hroot : root ∈ modules)
    (hregistered : ∀ module ∈ modules, build.registry.isRegistered module = true) :
    (Concatenation.build build root modules).value =
      .ok (ofNamed root build.runtime
        (NamedMembers.ofModules build.toBuildFacts (UniqueList.ofList modules))) := by
  have hcontains : (UniqueList.ofList modules).contains root = true :=
    UniqueList.contains_iff.mpr (UniqueList.mem_ofList.mpr hroot)
  rw [Concatenation.build, hcontains, firstUnregistered?_eq_none hregistered, htaps]
  simp only [Bool.not_true, Bool.false_eq_true, if_false, Journaled.value_bind,
    tapMembers_rebinding, Journaled.value_pure]
  rfl

theorem eq_ofNamed_of_build {build : Build} {root : ModuleId} {modules : List ModuleId}
    {unit : Concatenation} (htaps : build.extensions.mapTaps = [Rebinding.tap])
    (h : (Concatenation.build build root modules).value = .ok unit) :
    unit = ofNamed root build.runtime
      (NamedMembers.ofModules build.toBuildFacts (UniqueList.ofList modules)) := by
  obtain ⟨hroot, hregistered, -⟩ := exists_of_build_eq_ok h
  rw [build_eq_ok build htaps hroot hregistered, Except.ok.injEq] at h
  exact h.symm

theorem entries_ofNamed (root : ModuleId) (runtime : Runtime) {named : NamedMembers}
    (h : (named.members.map Member.module).Nodup) :
    (ofNamed root runtime named).members.entries =
      named.members.map fun member => (member.module, Rebinding.rebound 1 member) := by
  apply OrderedMap.entries_ofList_of_nodup
  rw [List.map_map]
  exact h

theorem values_ofNamed (root : ModuleId) (runtime : Runtime) {named : NamedMembers}
    (h : (named.members.map Member.module).Nodup) :
    (ofNamed root runtime named).members.values = named.members.map (Rebinding.rebound 1) := by
  rw [OrderedMap.values, entries_ofNamed root runtime h, List.map_map]
  rfl

/-- What naming has settled in a concatenation. -/
def named (unit : Concatenation) : NamedMembers := ⟨unit.scope, unit.members.values, unit.outside⟩

variable {build : Build} {root : ModuleId} {modules : List ModuleId} {unit : Concatenation}

/-- The members of a concatenation that only rebinding has seen. -/
theorem entries_members_of_build (htaps : ∀ tap ∈ build.extensions.mapTaps, tap = Rebinding.tap)
    (h : (Concatenation.build build root modules).value = .ok unit) :
    unit.members.entries =
      (NamedMembers.ofModules build.toBuildFacts (UniqueList.ofList modules)).members.map
        fun member =>
          (member.module, Rebinding.rebound build.extensions.mapTaps.length member) := by
  obtain ⟨-, -, members, rewritten, htapped, rfl⟩ := exists_of_build_eq_ok h
  obtain ⟨changed, hmembers⟩ := tapMembers_of_forall_eq_rebinding htaps
    (NamedMembers.ofModules build.toBuildFacts (UniqueList.ofList modules)).members
  rw [hmembers, Except.ok.injEq, Prod.mk.injEq] at htapped
  rw [← htapped.1]
  obtain ⟨ledger, haccount⟩ :=
    NamedMembers.exists_account build.toBuildFacts (UniqueList.ofList modules)
  apply OrderedMap.entries_ofList_of_nodup
  rw [List.map_map]
  exact haccount.map_module ▸ (UniqueList.ofList modules).nodup

theorem root_of_build (h : (Concatenation.build build root modules).value = .ok unit) :
    unit.root = root := by
  obtain ⟨-, -, members, rewritten, -, heq⟩ := exists_of_build_eq_ok h
  exact congrArg Concatenation.root heq

theorem runtime_of_build (h : (Concatenation.build build root modules).value = .ok unit) :
    unit.runtime = build.runtime := by
  obtain ⟨-, -, members, rewritten, -, heq⟩ := exists_of_build_eq_ok h
  exact congrArg Concatenation.runtime heq

/-- The modules of a concatenation are those it was built from, each at its first
place. -/
theorem modules_of_build (h : (Concatenation.build build root modules).value = .ok unit) :
    unit.modules = (UniqueList.ofList modules).toList := by
  obtain ⟨-, -, members, rewritten, htapped, rfl⟩ := exists_of_build_eq_ok h
  have hkeys : members.map Prod.fst = (UniqueList.ofList modules).toList :=
    (map_fst_of_tapMembers_eq_ok htapped).trans (NamedMembers.map_module_members _ _)
  rw [Concatenation.modules, OrderedMap.keys,
    OrderedMap.entries_ofList_of_nodup (hkeys ▸ (UniqueList.ofList modules).nodup)]
  exact hkeys

/-- A module is looked up as the member that was made of it. -/
theorem find?_members_iff_of_build
    (htaps : ∀ tap ∈ build.extensions.mapTaps, tap = Rebinding.tap)
    (h : (Concatenation.build build root modules).value = .ok unit) {module : ModuleId}
    {member : Member} :
    unit.members.find? module = some member ↔
      member ∈ unit.members.values ∧ member.module = module := by
  rw [OrderedMap.find?_eq_some_iff, OrderedMap.values, entries_members_of_build htaps h,
    List.map_map, List.mem_map, List.mem_map]
  constructor
  · rintro ⟨first, hfirst, heq⟩
    obtain ⟨rfl, rfl⟩ := Prod.mk.inj heq
    exact ⟨⟨first, hfirst, rfl⟩, rfl⟩
  · rintro ⟨⟨first, hfirst, rfl⟩, rfl⟩
    exact ⟨first, hfirst, rfl⟩

/-- The names of a concatenation are accounted for as naming has left them. -/
theorem exists_account_of_build
    (htaps : ∀ tap ∈ build.extensions.mapTaps, tap = Rebinding.tap)
    (h : (Concatenation.build build root modules).value = .ok unit) :
    ∃ ledger : Ledger, NamedMembers.Account build.toBuildFacts (UniqueList.ofList modules)
      unit.named ledger := by
  obtain ⟨ledger, haccount⟩ :=
    NamedMembers.exists_account build.toBuildFacts (UniqueList.ofList modules)
  refine ⟨ledger, ?_⟩
  have hvalues : unit.members.values =
      (NamedMembers.ofModules build.toBuildFacts (UniqueList.ofList modules)).members.map
        (Rebinding.rebound build.extensions.mapTaps.length) := by
    rw [OrderedMap.values, entries_members_of_build htaps h, List.map_map]
    rfl
  obtain ⟨-, -, members, rewritten, -, heq⟩ := exists_of_build_eq_ok h
  have hnamed : unit.named =
      { NamedMembers.ofModules build.toBuildFacts (UniqueList.ofList modules) with
        members := (NamedMembers.ofModules build.toBuildFacts
          (UniqueList.ofList modules)).members.map
            (Rebinding.rebound build.extensions.mapTaps.length) } := by
    rw [named, hvalues, heq]
  rw [hnamed]
  exact haccount.rebound _

end Concatenation

end ModuleLinker
