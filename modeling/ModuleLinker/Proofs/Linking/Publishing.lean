import ModuleLinker.Linking
import ModuleLinker.Proofs.Interface.Drafts

/-!
# What linking publishes

Linking checks its options and merges the members before it writes anything.  Then it
records the definitions of the root and the imports of the members, and the plan that
follows cannot fail any more.  So an attempt comes to one of three ends, and what it
leaves behind can be read off each of them.
-/

namespace ModuleLinker

namespace CodeTable

theorem get_edit (table : CodeTable) (module other : ModuleId) (runtime otherRuntime : Runtime)
    (change : ModuleCode → ModuleCode) :
    (table.edit module runtime change).get other otherRuntime =
      if (module, runtime) = (other, otherRuntime) then change (table.get module runtime)
      else table.get other otherRuntime := by
  rw [get, find?_edit]
  split
  · rfl
  · rfl

/-- Edits of one runtime leave the others as they are. -/
theorem get_foldl_edit_of_ne {α : Type} (moduleOf : α → ModuleId)
    (change : α → ModuleCode → ModuleCode) (entries : List α) (table : CodeTable)
    {runtime otherRuntime : Runtime} (hruntime : runtime ≠ otherRuntime) (module : ModuleId) :
    (entries.foldl (fun table entry => table.edit (moduleOf entry) runtime (change entry))
      table).get module otherRuntime = table.get module otherRuntime := by
  induction entries generalizing table with
  | nil => rfl
  | cons entry rest ih =>
    have hother : (moduleOf entry, runtime) ≠ (module, otherRuntime) := fun heq =>
      hruntime (Prod.mk.inj heq).2
    rw [List.foldl_cons, ih, get_edit, if_neg hother]

/-- Edits of distinct modules: each module gets the change that stands under it. -/
theorem get_foldl_edit {ν : Type} (change : ν → ModuleCode → ModuleCode)
    {entries : List (ModuleId × ν)} (hnodup : (entries.map Prod.fst).Nodup) (table : CodeTable)
    (runtime : Runtime) (module : ModuleId) :
    (entries.foldl (fun table entry => table.edit entry.1 runtime (change entry.2)) table).get
        module runtime =
      (OrderedMap.lookup module entries).elim id change (table.get module runtime) := by
  induction entries generalizing table with
  | nil => rfl
  | cons entry rest ih =>
    rw [List.map_cons, List.nodup_cons] at hnodup
    rw [List.foldl_cons, ih hnodup.2, get_edit, OrderedMap.lookup]
    by_cases heq : entry.1 = module
    · subst heq
      rw [if_pos rfl, if_pos rfl, OrderedMap.lookup_eq_none_iff.mpr hnodup.1]
      rfl
    · rw [if_neg fun hpair => heq (Prod.mk.inj hpair).1, if_neg heq]

end CodeTable

namespace Concatenation

/-- What is known of the code of a module once a concatenation was published: the root
has its definitions, and the members the imports with which the concatenation left
them. -/
def published (unit : Concatenation) (definitions : ExportMap) (module : ModuleId)
    (code : ModuleCode) : ModuleCode where
  declarations := code.declarations
  backing := code.backing
  definitions := if module = unit.root then some definitions else code.definitions
  imports := (unit.members.find? module).elim code.imports Member.imports

end Concatenation

namespace Build

/-- Publishing changes the facts about the root and the members, in the runtime of the
build. -/
theorem get_code_publish (build : Build) (unit : Concatenation) (definitions : ExportMap)
    (module : ModuleId) (runtime : Runtime) :
    (build.publish unit definitions).code.get module runtime =
      if runtime = build.runtime then
        unit.published definitions module (build.code.get module runtime)
      else build.code.get module runtime := by
  split
  · rename_i heq
    subst heq
    have himports := CodeTable.get_foldl_edit
      (fun (member : Member) code => { code with imports := member.imports })
      unit.members.nodup
      (build.code.edit unit.root build.runtime fun code =>
        { code with definitions := some definitions }) build.runtime module
    refine himports.trans ?_
    rw [CodeTable.get_edit, ← OrderedMap.find?, Concatenation.published]
    by_cases hroot : unit.root = module
    · subst hroot
      rw [if_pos rfl, if_pos rfl]
      cases unit.members.find? unit.root <;> rfl
    · rw [if_neg fun heq => hroot (Prod.mk.inj heq).1, if_neg fun heq => hroot heq.symm]
      cases unit.members.find? module <;> rfl
  · rename_i hne
    refine (CodeTable.get_foldl_edit_of_ne Prod.fst _ _ _ (Ne.symm hne) module).trans ?_
    rw [CodeTable.get_edit, if_neg fun heq => hne (Prod.mk.inj heq).2.symm]

/-- Publishing a concatenation leaves its definitions where planning finds them. -/
theorem definitionsOf_publish (build : Build) (unit : Concatenation) (definitions : ExportMap) :
    Interface.definitionsOf (build.publish unit definitions).toBuildFacts unit.root =
      definitions := by
  have hget := get_code_publish build unit definitions unit.root build.runtime
  rw [if_pos rfl] at hget
  rw [Interface.definitionsOf, BuildFacts.codeOf]
  refine (congrArg (fun code => code.definitions.getD ∅) hget).trans ?_
  rw [Concatenation.published, if_pos rfl]
  rfl

/-- The reasons for which linking is refused: the options of the library, a root that
does not fit them, or members that cannot be merged. -/
inductive Refuses (build : Build) (root : ModuleId) (members : List ModuleId) : LinkError → Prop
  | options {reason : LinkError}
      (hoptions : Library.ofOptions build.configuration.library = .error reason) :
      Refuses build root members reason
  | library {library : Library} {reason : LinkError}
      (hoptions : Library.ofOptions build.configuration.library = .ok library)
      (hcheck : library.checkAgainst build.registry root = .error reason) :
      Refuses build root members reason
  | merging {library : Library} {reason : LinkError}
      (hoptions : Library.ofOptions build.configuration.library = .ok library)
      (hcheck : library.checkAgainst build.registry root = .ok ()) (hmembers : members ≠ [])
      (hbuild : (Concatenation.build build root members).value = .error reason) :
      Refuses build root members reason

/-- The library that is linked from merged members and the plan of its interface. -/
def linkedFrom (root : ModuleId) (unit : Concatenation) (definitions : ExportMap)
    (interface : Interface) : LinkedLibrary where
  root := root
  code := importSource (unit.members.values.flatMap Member.imports) ++ interface.source
  definitions := definitions
  wrapperOmittable := interface.wrapperOmittable
  mapsRewritten := unit.rewritten
  fingerprint := some unit.fingerprint

/-- What linking comes to: it is refused, or the root is linked on its own, or the
members are merged, published and linked. -/
inductive LinksTo (build : Build) (root : ModuleId) (members : List ModuleId) :
    LinkOutcome → Prop
  | refused {reason : LinkError} {journal : List JournalEntry}
      (hrefuses : build.Refuses root members reason) :
      LinksTo build root members ⟨build, journal, .error reason⟩
  | alone {library : Library} {interface : Interface} {journal : List JournalEntry}
      (hoptions : Library.ofOptions build.configuration.library = .ok library)
      (hcheck : library.checkAgainst build.registry root = .ok ()) (hmembers : members = [])
      (hplan : (Interface.plan build library root none).value = .ok interface) :
      LinksTo build root members {
        build
        journal
        result := .ok {
          root
          code := importSource (build.toBuildFacts.codeOf root).imports ++ interface.source
          definitions := ∅
          wrapperOmittable := interface.wrapperOmittable
          mapsRewritten := false
          fingerprint := none } }
  | merged {library : Library} {unit : Concatenation} {interface : Interface}
      {journal : List JournalEntry}
      (hoptions : Library.ofOptions build.configuration.library = .ok library)
      (hcheck : library.checkAgainst build.registry root = .ok ()) (hmembers : members ≠ [])
      (hbuild : (Concatenation.build build root members).value = .ok unit)
      (hplan : (Interface.plan (build.publish unit (unit.definitions build.registry)) library
        root (some unit)).value = .ok interface) :
      LinksTo build root members {
        build := build.publish unit (unit.definitions build.registry)
        journal
        result := .ok (linkedFrom root unit (unit.definitions build.registry) interface) }

/-- A library that fits a module has a plan for it, whatever was published before. -/
theorem exists_plan_of_checkAgainst {build : Build} {library : Library} {root : ModuleId}
    (hcheck : library.checkAgainst build.registry root = .ok ()) (code : CodeTable)
    (unit : Option Concatenation) :
    ∃ interface, (Interface.plan { build with code } library root unit).value = .ok interface := by
  cases htable : build.registry.table? root with
  | none =>
    rw [Library.checkAgainst, htable] at hcheck
    exact absurd hcheck (by simp)
  | some table =>
    let published : Build := { build with code }
    have hpublished : published.registry.table? root = some table := htable
    obtain ⟨interface, hplan, -⟩ := Interface.exists_plan_eq_ok hpublished library unit
    exact ⟨interface, hplan⟩

/-- What finishing makes of a plan. -/
theorem exists_finish_eq {build : Build} {library : Library} {root : ModuleId}
    {unit : Option Concatenation} {interface : Interface} (imports : List ImportStatement)
    (definitions : ExportMap) (journal : List JournalEntry)
    (hplan : (Interface.plan build library root unit).value = .ok interface) :
    ∃ journalAfter, build.finish library root unit imports definitions journal = {
      build
      journal := journalAfter
      result := .ok {
        root
        code := importSource imports ++ interface.source
        definitions
        wrapperOmittable := interface.wrapperOmittable
        mapsRewritten := unit.elim false Concatenation.rewritten
        fingerprint := unit.map Concatenation.fingerprint } } := by
  rw [finish]
  split
  · rename_i reason herror
    rw [hplan] at herror
    exact absurd herror (by simp)
  · rename_i planned hplanned
    rw [hplan, Except.ok.injEq] at hplanned
    rw [hplanned]
    exact ⟨_, rfl⟩

/-- Linking a library whose options are in order is linking its members. -/
theorem link_eq_linkMembers {build : Build} {root : ModuleId} {library : Library}
    (hoptions : Library.ofOptions build.configuration.library = .ok library)
    (hcheck : library.checkAgainst build.registry root = .ok ()) (members : List ModuleId) :
    build.link root members = build.linkMembers library root members := by
  rw [link, hoptions]
  dsimp only
  rw [hcheck]

theorem linksTo_link (build : Build) (root : ModuleId) (members : List ModuleId) :
    build.LinksTo root members (build.link root members) := by
  rw [link]
  split
  · rename_i reason hoptions
    exact .refused (.options hoptions)
  · rename_i library hoptions
    split
    · rename_i reason hcheck
      exact .refused (.library hoptions hcheck)
    · rename_i hcheck
      rw [linkMembers]
      by_cases hmembers : members = []
      · obtain ⟨interface, hplan⟩ := exists_plan_of_checkAgainst hcheck build.code none
        obtain ⟨journal, heq⟩ := exists_finish_eq
          (build.toBuildFacts.codeOf root).imports ∅ _ hplan
        rw [if_pos (List.isEmpty_iff.mpr hmembers)]
        exact heq ▸ .alone hoptions hcheck hmembers hplan
      · rw [if_neg (mt List.isEmpty_iff.mp hmembers)]
        dsimp only
        split
        · rename_i reason hbuild
          exact .refused (.merging hoptions hcheck hmembers hbuild)
        · rename_i unit hbuild
          obtain ⟨interface, hplan⟩ := exists_plan_of_checkAgainst hcheck
            (build.publish unit (unit.definitions build.registry)).code (some unit)
          obtain ⟨journal, heq⟩ := exists_finish_eq
            (unit.members.values.flatMap Member.imports) (unit.definitions build.registry) _ hplan
          exact heq ▸ .merged hoptions hcheck hmembers hbuild hplan

/-- Linking changes nothing of a build but what is known of the code. -/
theorem build_link_eq (build : Build) (root : ModuleId) (members : List ModuleId) :
    (build.link root members).build =
      { build with code := (build.link root members).build.code } := by
  have hlinks := linksTo_link build root members
  generalize build.link root members = outcome at hlinks
  cases hlinks with
  | refused _ => rfl
  | alone _ _ _ _ => rfl
  | merged _ _ _ _ _ => rfl

/-- What a successful run of linking with members consists of. -/
theorem exists_of_link_eq_ok {build : Build} {root : ModuleId} {members : List ModuleId}
    {linked : LinkedLibrary} (hmembers : members ≠ [])
    (h : (build.link root members).result = .ok linked) :
    ∃ library unit interface, Library.ofOptions build.configuration.library = .ok library ∧
      library.checkAgainst build.registry root = .ok () ∧
      (Concatenation.build build root members).value = .ok unit ∧
      (Interface.plan (build.publish unit (unit.definitions build.registry)) library root
        (some unit)).value = .ok interface ∧
      linked = linkedFrom root unit (unit.definitions build.registry) interface ∧
      (build.link root members).build =
        build.publish unit (unit.definitions build.registry) := by
  have hlinks := linksTo_link build root members
  generalize build.link root members = outcome at hlinks h
  cases hlinks with
  | refused _ => exact absurd h (by simp)
  | alone _ _ hnil _ => exact absurd hnil hmembers
  | merged hoptions hcheck _ hbuild hplan =>
    exact ⟨_, _, _, hoptions, hcheck, hbuild, hplan, (Except.ok.inj h).symm, rfl⟩

end Build

end ModuleLinker
