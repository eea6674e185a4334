import ModuleLinker.Proofs.Concatenation.Building
import ModuleLinker.Proofs.Naming.Coverage

/-!
# Concatenations that any taps have seen

A map tap may do to a member and to its export map what it likes, but a run in which
it changes the names in the map fails.  So whatever the taps are, a concatenation that
is built has the scope that naming gave out, its members in their order, and in their
export maps exactly the names that naming entered.
-/

namespace ModuleLinker

namespace MapTap

theorem missingIn_eq_nil_iff {first second : ExportMap} :
    missingIn first second = [] ↔ ∀ name ∈ second.keys, name ∈ first.keys := by
  rw [missingIn, List.filter_eq_nil_iff]
  refine forall₂_congr fun name _ => ?_
  rw [Bool.not_eq_true', Bool.not_eq_false, OrderedMap.contains_iff]

/-- Maps of which none lacks a name of the other have the same names up to their order. -/
theorem keys_perm_of_missingIn {first second : ExportMap} (hadded : missingIn first second = [])
    (hremoved : missingIn second first = []) : second.keys.Perm first.keys := by
  rw [missingIn_eq_nil_iff] at hadded hremoved
  rw [List.perm_ext_iff_of_nodup second.nodup_keys first.nodup_keys]
  exact fun name => ⟨hadded name, hremoved name⟩

/-- What every answer with the same names keeps is kept by a run of map taps that does not
fail, since only such answers are accepted. -/
theorem runAll_induction {module : ModuleId} {taps : List MapTap} {p : ExportMap → Prop}
    (hstep : ∀ tap ∈ taps, ∀ map member after answer,
      (tap.run module map member).value = (after, .ok (.replace answer)) →
        answer.keys.Perm map.keys → p map → p answer)
    {current rewritten : Rewritten} {member after : Member}
    (h : (runAll module taps current member).value = (after, .ok rewritten))
    (hcurrent : p current.map) : p rewritten.map := by
  induction taps generalizing current member with
  | nil =>
    obtain ⟨-, hsame⟩ := Prod.mk.inj h
    exact Except.ok.inj hsame ▸ hcurrent
  | cons tap rest ih =>
    obtain ⟨hfirst, hrest⟩ := List.forall_mem_cons.mp hstep
    rw [runAll, Journaled.value_bind] at h
    rcases hrun : (tap.run module current.map member).value with ⟨tapped, answer⟩
    rw [hrun] at h
    dsimp only at h
    split at h
    · exact absurd (Prod.mk.inj h).2 (by simp)
    · exact ih hrest h hcurrent
    · split at h
      · rename_i map hnone
        rw [Bool.and_eq_true, List.isEmpty_iff, List.isEmpty_iff] at hnone
        have hperm : map.keys.Perm current.map.keys := keys_perm_of_missingIn hnone.1 hnone.2
        exact ih hrest h (hfirst _ _ _ _ hrun hperm hcurrent)
      · exact absurd (Prod.mk.inj h).2 (by simp)

/-- A run of map taps that does not fail keeps the names in the map. -/
theorem mem_keys_of_runAll_eq_ok {module : ModuleId} {taps : List MapTap}
    {current rewritten : Rewritten} {member after : Member}
    (h : (runAll module taps current member).value = (after, .ok rewritten)) {name : String} :
    name ∈ rewritten.map.keys ↔ name ∈ current.map.keys := by
  apply runAll_induction (p := fun map => name ∈ map.keys ↔ name ∈ current.map.keys) _ h Iff.rfl
  intro _ _ _ _ _ _ _ hperm hsame
  exact hperm.mem_iff.trans hsame

end MapTap

namespace Concatenation

/-- An entry for a member after any taps: it stands under the module of the member, and
its export map has the same names. -/
structure Taps (member : Member) (entry : ModuleId × Member) : Prop where
  module_eq : entry.1 = member.module
  mem_keys_iff : ∀ name, name ∈ entry.2.exportMap.keys ↔ name ∈ member.exportMap.keys

/-- Every entry comes from a run of the taps on a member. -/
theorem exists_run_of_tapMembers_eq_ok {taps : List MapTap} {members : List Member}
    {entries : List (ModuleId × Member)} {changed : Bool}
    (h : (tapMembers taps members).value = .ok (entries, changed)) {entry : ModuleId × Member}
    (hentry : entry ∈ entries) : ∃ member ∈ members, ∃ after rewritten,
      (MapTap.runAll member.module taps ⟨member.exportMap, false⟩ member).value =
          (after, .ok rewritten) ∧
        entry = (member.module, { after with exportMap := rewritten.map }) := by
  induction members generalizing entries changed with
  | nil =>
    obtain ⟨rfl, -⟩ := Prod.mk.inj (Except.ok.inj h)
    exact absurd hentry List.not_mem_nil
  | cons member rest ih =>
    obtain ⟨after, rewritten, later, laterChanged, hrun, hrest, rfl, -⟩ :=
      exists_of_tapMembers_cons_eq_ok h
    cases List.mem_cons.mp hentry with
    | inl heq => exact ⟨member, List.mem_cons_self, after, rewritten, hrun, heq⟩
    | inr hlater =>
      obtain ⟨other, hother, hran⟩ := ih hrest hlater
      exact ⟨other, List.mem_cons_of_mem _ hother, hran⟩

theorem exists_taps_of_tapMembers_eq_ok {taps : List MapTap} {members : List Member}
    {entries : List (ModuleId × Member)} {changed : Bool}
    (h : (tapMembers taps members).value = .ok (entries, changed)) {entry : ModuleId × Member}
    (hentry : entry ∈ entries) : ∃ member ∈ members, Taps member entry := by
  obtain ⟨member, hmember, after, rewritten, hrun, rfl⟩ := exists_run_of_tapMembers_eq_ok h hentry
  exact ⟨member, hmember, rfl, fun name => MapTap.mem_keys_of_runAll_eq_ok hrun⟩

variable {build : Build} {root : ModuleId} {modules : List ModuleId} {unit : Concatenation}
  {module : ModuleId} {map : ExportMap}

/-- The final export map of a member has an entry for each export that can be linked and
has a reference, whatever the taps have made of it. -/
theorem mem_keys_exportMap_iff_of_build
    (h : (Concatenation.build build root modules).value = .ok unit)
    (hmap : unit.exportMap? module = some map) {name : String} :
    name ∈ map.keys ↔ ∃ e ∈ Naming.linkable build.toBuildFacts module, e.name = name ∧
      Naming.HasReference build.toBuildFacts unit.modules
        (build.registry.resolve ⟨module, e.name⟩) := by
  rw [modules_of_build h]
  obtain ⟨-, -, entries, rewritten, htapped, rfl⟩ := exists_of_build_eq_ok h
  obtain ⟨after, hafter, rfl⟩ := Option.map_eq_some_iff.mp hmap
  obtain ⟨member, hmember, htaps⟩ := exists_taps_of_tapMembers_eq_ok htapped
    (OrderedMap.mem_of_mem_entries_ofList (OrderedMap.find?_eq_some_iff.mp hafter))
  have hmodule : module = member.module := htaps.module_eq
  rw [hmodule]
  exact (htaps.mem_keys_iff name).trans (NamedMembers.mem_keys_exportMap_iff hmember)

theorem exists_exportMap_of_mem (hmodule : module ∈ unit.modules) :
    ∃ map, unit.exportMap? module = some map := by
  obtain ⟨member, hmember⟩ := OrderedMap.mem_keys_iff_exists_find?.mp hmodule
  exact ⟨member.exportMap, by rw [exportMap?, hmember, Option.map_some]⟩

end Concatenation

end ModuleLinker
