import ModuleLinker.Proofs.Imports.Sources
import ModuleLinker.Proofs.Interface.Taps
import ModuleLinker.Proofs.Linking.Rebuilding

/-!
# Linking again

Linking writes the final names of imports where it has read their spellings, and then it
can be asked to link the same library once more.  With nothing but the standard extensions
the second attempt succeeds as the first did.  It gives the same library exactly when the
first one rebound no import, because otherwise the second one either finds nothing to
rebind, and reports that, or writes other import statements.
-/

namespace ModuleLinker

namespace Concatenation

variable {build : Build} {root : ModuleId} {modules : List ModuleId} {unit : Concatenation}

/-- Rebinding writes the same import statements for all members together exactly when it
changes those of none. -/
theorem any_isRebound_eq_false_iff {members : List Member} :
    members.any isRebound = false ↔ members.flatMap (fun member =>
      Rebinding.rebindAll member.exportMap member.localNames member.imports) =
        members.flatMap Member.imports := by
  induction members with
  | nil => exact iff_of_true rfl rfl
  | cons member rest ih =>
    rw [List.any_cons, Bool.or_eq_false_iff, ih, isRebound, decide_eq_false_iff_not,
      Classical.not_not, List.flatMap_cons, List.flatMap_cons]
    constructor
    · rintro ⟨hfirst, hrest⟩
      rw [hfirst, hrest]
    · exact fun h => List.append_inj h (List.length_map _)

/-- The bindings of all import statements are identifiers. -/
theorem isIdentifier_of_mem_bindings (htaps : build.extensions.mapTaps = [Rebinding.tap])
    (hbuild : (Concatenation.build build root modules).value = .ok unit) :
    ∀ name ∈ (unit.members.values.flatMap Member.imports).flatMap ImportStatement.bindings,
      Identifier.isIdentifier name = true := by
  have hall := MapTap.eq_of_mem_of_eq_singleton htaps
  obtain ⟨ledger, haccount⟩ := exists_account_of_build hall hbuild
  intro name hname
  rw [List.flatMap_assoc, ← importedNames, ← names_importLedger htaps hall hbuild] at hname
  obtain ⟨entry, hentry, rfl⟩ := List.mem_map.mp hname
  exact haccount.sound.isIdentifier_of_mem (importLedger_subset hall hbuild haccount hentry)

/-- Named members whose import statements are written alike before and after rebinding
have none that was rebound. -/
theorem rewritten_ofNamed_eq_false {named : NamedMembers} {runtime : Runtime}
    {text other : String} (hnodup : (named.members.map Member.module).Nodup)
    (hold : ∀ name ∈ (named.members.flatMap Member.imports).flatMap ImportStatement.bindings,
      Identifier.isIdentifier name = true)
    (hnew : ∀ name ∈ ((ofNamed root runtime named).members.values.flatMap
      Member.imports).flatMap ImportStatement.bindings, Identifier.isIdentifier name = true)
    (h : Build.importSource (named.members.flatMap Member.imports) ++ text =
      Build.importSource ((ofNamed root runtime named).members.values.flatMap Member.imports) ++
        other) : (ofNamed root runtime named).rewritten = false := by
  have hwritten : (ofNamed root runtime named).members.values.flatMap Member.imports =
      named.members.flatMap fun member =>
        Rebinding.rebindAll member.exportMap member.localNames member.imports := by
    rw [values_ofNamed root runtime hnodup, List.flatMap_map]
    rfl
  rw [hwritten] at hnew h
  have hlength : (named.members.flatMap Member.imports).length =
      (named.members.flatMap fun member =>
        Rebinding.rebindAll member.exportMap member.localNames member.imports).length := by
    rw [List.length_flatMap, List.length_flatMap]
    simp only [Rebinding.rebindAll, List.length_map]
  exact any_isRebound_eq_false_iff.mpr
    (Build.importSource_append_inj hlength hold hnew h).1.symm

/-- If published members are merged again and their import statements are written as
before, rebinding changed none of them. -/
theorem rewritten_eq_false_of_importSource_eq
    (htaps : build.extensions.mapTaps = [Rebinding.tap])
    (hbuild : (Concatenation.build build root modules).value = .ok unit)
    {definitions : ExportMap} {rebuilt : Concatenation}
    (hrebuilt : (Concatenation.build (build.publish unit definitions) root modules).value =
      .ok rebuilt) {text other : String}
    (h : Build.importSource (unit.members.values.flatMap Member.imports) ++ text =
      Build.importSource (rebuilt.members.values.flatMap Member.imports) ++ other) :
    rebuilt.rewritten = false := by
  have hagain : (build.publish unit definitions).extensions.mapTaps = [Rebinding.tap] := htaps
  have hold := isIdentifier_of_mem_bindings htaps hbuild
  have hnew := isIdentifier_of_mem_bindings hagain hrebuilt
  have hread : unit.members.values.flatMap Member.imports =
      (NamedMembers.ofModules (build.publish unit definitions).toBuildFacts
        (UniqueList.ofList modules)).members.flatMap Member.imports := by
    rw [NamedMembers.flatMap_imports_members, ← modules_of_build hbuild, importsOf_publish]
  rw [eq_ofNamed_of_build hagain hrebuilt] at hnew h ⊢
  rw [hread] at hold h
  exact rewritten_ofNamed_eq_false (NamedMembers.nodup_module_members _ _) hold hnew h

end Concatenation

namespace Build

variable {build : Build} {root : ModuleId} {members : List ModuleId} {linked : LinkedLibrary}

/-- The standard extensions do not look at generated code when they decide about
wrappers. -/
theorem ignoresCode_of_standard
    (hstandard : build.extensions = (withStandardExtensions build.configuration).extensions) :
    (∀ tap ∈ build.extensions.bailoutTaps, tap.IgnoresCode) ∧
      ∀ tap ∈ build.extensions.definitionsTaps, tap.IgnoresCode := by
  rw [hstandard]
  exact ⟨fun _ htap => absurd htap List.not_mem_nil,
    fun _ htap => List.mem_singleton.mp htap ▸ Wrapper.ignoresCode_tap⟩

/-- Linking succeeds if its options are in order, they fit the root and the members can be
merged. -/
theorem exists_link_eq_ok (build : Build) {library : Library} {unit : Concatenation}
    (hoptions : Library.ofOptions build.configuration.library = .ok library)
    (hcheck : library.checkAgainst build.registry root = .ok ()) (hmembers : members ≠ [])
    (hbuild : (Concatenation.build build root members).value = .ok unit) :
    ∃ interface, (Interface.plan (build.publish unit (unit.definitions build.registry)) library
        root (some unit)).value = .ok interface ∧
      (build.link root members).result =
        .ok (linkedFrom root unit (unit.definitions build.registry) interface) := by
  obtain ⟨interface, hplan⟩ := exists_plan_of_checkAgainst hcheck
    (build.publish unit (unit.definitions build.registry)).code (some unit)
  obtain ⟨journal, hfinish⟩ := exists_finish_eq (unit.members.values.flatMap Member.imports)
    (unit.definitions build.registry)
    (build.registry.cycles.map JournalEntry.circularExports ++
      (Concatenation.build build root members).entries) hplan
  refine ⟨interface, hplan, ?_⟩
  rw [link_eq_linkMembers hoptions hcheck, linkMembers,
    if_neg (mt List.isEmpty_iff.mp hmembers)]
  dsimp only
  rw [hbuild]
  exact congrArg LinkOutcome.result hfinish

/-- What is linked from concatenations that look the same differs at most in the report of
changes. -/
theorem linkedFrom_of_looks {unit rebuilt : Concatenation} (hlooks : unit.Looks rebuilt)
    (root : ModuleId) (definitions : ExportMap) (interface : Interface) :
    linkedFrom root rebuilt definitions interface =
      { linkedFrom root unit definitions interface with mapsRewritten := rebuilt.rewritten } := by
  rw [linkedFrom, linkedFrom, hlooks.imports_eq, hlooks.fingerprint_eq]

/-- Where merging again gives a concatenation that looks the same, linking again gives the
same library but for the report of changes. -/
theorem linkedFrom_publish_of_looks {library : Library} {unit rebuilt : Concatenation}
    {interface relinked : Interface}
    (hstandard : build.extensions = (withStandardExtensions build.configuration).extensions)
    (hroot : unit.root = root) (hlooks : unit.Looks rebuilt)
    (hplan : (Interface.plan (build.publish unit (unit.definitions build.registry)) library root
      (some unit)).value = .ok interface)
    (hagain : (Interface.plan ((build.publish unit (unit.definitions build.registry)).publish
      rebuilt (rebuilt.definitions build.registry)) library root (some rebuilt)).value =
        .ok relinked) :
    linkedFrom root rebuilt (rebuilt.definitions build.registry) relinked =
      { linkedFrom root unit (unit.definitions build.registry) interface with
        mapsRewritten := rebuilt.rewritten } := by
  have hdefinitions := hlooks.definitions_eq build.registry
  have hkept : Interface.definitionsOf ((build.publish unit
      (unit.definitions build.registry)).publish rebuilt
        (rebuilt.definitions build.registry)).toBuildFacts root =
      Interface.definitionsOf
        (build.publish unit (unit.definitions build.registry)).toBuildFacts root := by
    rw [← hroot, definitionsOf_publish, ← hlooks.root_eq, definitionsOf_publish, hdefinitions]
  obtain ⟨hbailout, hdefinitionsTaps⟩ := ignoresCode_of_standard hstandard
  have hsame := Interface.value_plan_withCode
    (build.publish unit (unit.definitions build.registry)) hbailout hdefinitionsTaps
    library hlooks.scope_eq hkept
  have hinterface : relinked = interface :=
    Except.ok.inj (hagain.symm.trans (hsame.trans hplan))
  rw [hinterface, hdefinitions]
  exact linkedFrom_of_looks hlooks root _ _

/-- Two attempts to link one library, the second in the build that the first leaves: what
they merge, and what their results have to do with that. -/
structure Relinks (build : Build) (root : ModuleId) (members : List ModuleId)
    (unit rebuilt : Concatenation) (linked relinked : LinkedLibrary) : Prop where
  build_eq_ok : (Concatenation.build build root members).value = .ok unit
  rebuild_eq_ok : (Concatenation.build
    (build.publish unit (unit.definitions build.registry)) root members).value = .ok rebuilt
  relink_eq_ok : ((build.link root members).build.link root members).result = .ok relinked
  mapsRewritten_linked : linked.mapsRewritten = unit.rewritten
  mapsRewritten_relinked : relinked.mapsRewritten = rebuilt.rewritten
  wrapperOmittable_eq : relinked.wrapperOmittable = linked.wrapperOmittable
  code_linked : ∃ text,
    linked.code = importSource (unit.members.values.flatMap Member.imports) ++ text
  code_relinked : ∃ text,
    relinked.code = importSource (rebuilt.members.values.flatMap Member.imports) ++ text
  eq_of_looks : unit.Looks rebuilt →
    relinked = { linked with mapsRewritten := rebuilt.rewritten }

/-- With the standard extensions, linking again succeeds. -/
theorem exists_relinks
    (hstandard : build.extensions = (withStandardExtensions build.configuration).extensions)
    (hmembers : members ≠ []) (hlink : (build.link root members).result = .ok linked) :
    ∃ unit rebuilt relinked, build.Relinks root members unit rebuilt linked relinked := by
  obtain ⟨library, unit, interface, hoptions, hcheck, hbuild, hplan, hlinked, hafter⟩ :=
    exists_of_link_eq_ok hmembers hlink
  obtain ⟨hroot, hregistered, -⟩ := Concatenation.exists_of_build_eq_ok hbuild
  obtain ⟨rebuilt, hrebuild⟩ : ∃ rebuilt, (Concatenation.build
      (build.publish unit (unit.definitions build.registry)) root members).value = .ok rebuilt :=
    ⟨_, Concatenation.build_eq_ok _ (congrArg Extensions.mapTaps hstandard) hroot hregistered⟩
  obtain ⟨again, hagain, hrelink⟩ := exists_link_eq_ok
    (build.publish unit (unit.definitions build.registry)) hoptions hcheck hmembers hrebuild
  refine ⟨unit, rebuilt, linkedFrom root rebuilt (rebuilt.definitions build.registry) again, {
    build_eq_ok := hbuild
    rebuild_eq_ok := hrebuild
    relink_eq_ok := hafter ▸ hrelink
    mapsRewritten_linked := congrArg LinkedLibrary.mapsRewritten hlinked
    mapsRewritten_relinked := rfl
    wrapperOmittable_eq := ?_
    code_linked := ⟨_, congrArg LinkedLibrary.code hlinked⟩
    code_relinked := ⟨_, rfl⟩
    eq_of_looks := fun hlooks => ?_ }⟩
  · have htaps := congrArg Extensions.definitionsTaps hstandard
    have hfirst := Interface.wrapperOmittable_of_plan_some
      (build.publish unit (unit.definitions build.registry)) htaps hplan
    have hsecond := Interface.wrapperOmittable_of_plan_some
      ((build.publish unit (unit.definitions build.registry)).publish rebuilt
        (rebuilt.definitions build.registry)) htaps hagain
    rw [hlinked]
    exact (hsecond.trans (Wrapper.value_canOmit_withCode (ignoresCode_of_standard hstandard).1
      root _ _)).trans hfirst.symm
  · rw [hlinked]
    exact linkedFrom_publish_of_looks hstandard (Concatenation.root_of_build hbuild) hlooks
      hplan hagain

/-- Linking a library again, with nothing but the standard extensions, succeeds.  It gives
the same library exactly when linking has rebound no import before.  Whether the wrapper can
be omitted stays in any case, and where all imports are settled, everything stays but the
report of changes. -/
theorem relinked_library
    (hstandard : build.extensions = (withStandardExtensions build.configuration).extensions)
    (hmembers : members ≠ []) (hlink : (build.link root members).result = .ok linked) :
    ∃ unit relinked, (Concatenation.build build root members).value = .ok unit ∧
      ((build.link root members).build.link root members).result = .ok relinked ∧
      (relinked = linked ↔ linked.mapsRewritten = false) ∧
      relinked.wrapperOmittable = linked.wrapperOmittable ∧
      (unit.Settled build.toBuildFacts → relinked = { linked with mapsRewritten := false }) := by
  have htaps : build.extensions.mapTaps = [Rebinding.tap] :=
    congrArg Extensions.mapTaps hstandard
  obtain ⟨unit, rebuilt, relinked, h⟩ := exists_relinks hstandard hmembers hlink
  refine ⟨unit, relinked, h.build_eq_ok, h.relink_eq_ok, ⟨fun hequal => ?_, fun hkept => ?_⟩,
    h.wrapperOmittable_eq, fun hsettled => ?_⟩
  · -- Equal code has equal import statements, so the second attempt reports no change.
    obtain ⟨text, hcode⟩ := h.code_linked
    obtain ⟨other, hother⟩ := h.code_relinked
    rw [← hequal, h.mapsRewritten_relinked]
    rw [hequal, hcode] at hother
    exact Concatenation.rewritten_eq_false_of_importSource_eq htaps h.build_eq_ok
      h.rebuild_eq_ok hother
  · have hkeeps : unit.rewritten = false := h.mapsRewritten_linked ▸ hkept
    have hrebuilt : rebuilt = unit := Except.ok.inj (h.rebuild_eq_ok.symm.trans
      (Concatenation.rebuild_of_not_rewritten htaps h.build_eq_ok hkeeps _))
    rw [h.eq_of_looks (hrebuilt ▸ Concatenation.Looks.refl unit), hrebuilt, hkeeps, ← hkept]
  · obtain ⟨settled, hvalue, hlooks, hkept⟩ := Concatenation.rebuild_of_settled hsettled htaps
      h.build_eq_ok (unit.definitions build.registry)
    have hrebuilt : rebuilt = settled := Except.ok.inj (h.rebuild_eq_ok.symm.trans hvalue)
    rw [h.eq_of_looks (hrebuilt ▸ hlooks), hrebuilt, hkept]

/-- A build with the standard extensions, of two modules: the first declares what the second
imports from outside. -/
def renamedImportBuild : Build :=
  let code := (∅ : CodeTable).edit ⟨0⟩ "main" fun code =>
    { code with declarations := UniqueList.ofList ["join"] }
  { withStandardExtensions default with
    registry := ((∅ : ExportRegistry).register ⟨0⟩ "./index.js").register ⟨1⟩ "./util.js"
    code := code.edit ⟨1⟩ "main" fun code =>
      { code with imports := [⟨"node:path", [⟨"join", "join"⟩]⟩] } }

/-- The import keeps the name that it got, and only the first attempt reports it. -/
theorem relinked_library_renamed :
    ∃ linked relinked, (renamedImportBuild.link ⟨0⟩ [⟨0⟩, ⟨1⟩]).result = .ok linked ∧
      linked.code = "import \x7b join as join_1 \x7d from \"node:path\";\n" ∧
      linked.mapsRewritten = true ∧
      ((renamedImportBuild.link ⟨0⟩ [⟨0⟩, ⟨1⟩]).build.link ⟨0⟩ [⟨0⟩, ⟨1⟩]).result =
        .ok relinked ∧
      relinked = { linked with mapsRewritten := false } ∧ relinked ≠ linked := by
  obtain ⟨linked, hlink, hread⟩ := exists_eq_ok_of_map_toOption
    (renamedImportBuild.link ⟨0⟩ [⟨0⟩, ⟨1⟩]).result
    (fun linked => (linked.code, linked.mapsRewritten))
    (y := ("import \x7b join as join_1 \x7d from \"node:path\";\n", true)) (by decide)
  obtain ⟨hcode, hchanged⟩ := Prod.mk.inj hread
  obtain ⟨settled, hsettled, hdecides⟩ := exists_eq_ok_of_map_toOption
    (Concatenation.build renamedImportBuild ⟨0⟩ [⟨0⟩, ⟨1⟩]).value
    (fun unit => decide (unit.Settled renamedImportBuild.toBuildFacts)) (y := true) (by decide)
  obtain ⟨unit, relinked, hbuild, hrelink, hiff, -, hsame⟩ :=
    relinked_library rfl (List.cons_ne_nil _ _) hlink
  have hunit : settled = unit := Except.ok.inj (hsettled.symm.trans hbuild)
  refine ⟨linked, relinked, hlink, hcode, hchanged, hrelink,
    hsame (hunit ▸ of_decide_eq_true hdecides), fun hequal => ?_⟩
  rw [hiff.mp hequal] at hchanged
  exact Bool.false_ne_true hchanged

/-- A build with the standard extensions in which an import backs what the root exports
again, and has to be renamed since the root declares its name. -/
def backedImportBuild : Build :=
  let registry : Except LinkError ExportRegistry := do
    let known := ((∅ : ExportRegistry).register ⟨0⟩ "./index.js").register ⟨1⟩ "./util.js"
    let origin ← known.addExport ⟨1⟩ ⟨"x", .provided, ∅, none, none⟩
    origin.addExport ⟨0⟩ ⟨"x", .provided, ∅, some ⟨⟨1⟩, some "x"⟩, none⟩
  let code := (∅ : CodeTable).edit ⟨0⟩ "main" fun code =>
    { code with declarations := UniqueList.ofList ["helper"] }
  { withStandardExtensions default with
    registry := registry.toOption.getD ∅
    code := code.edit ⟨1⟩ "main" fun code =>
      { code with
        backing := OrderedMap.ofList [("x", "helper")]
        imports := [⟨"ext", [⟨"default", "helper"⟩]⟩] } }

/-- Linking again does not always give the same library: here the second attempt does not
find the import behind the export any more, and gives the export a name of its own. -/
theorem relinking_changes_library :
    ∃ linked relinked, (backedImportBuild.link ⟨0⟩ [⟨0⟩, ⟨1⟩]).result = .ok linked ∧
      ((backedImportBuild.link ⟨0⟩ [⟨0⟩, ⟨1⟩]).build.link ⟨0⟩ [⟨0⟩, ⟨1⟩]).result =
        .ok relinked ∧
      linked.code = "import \x7b default as helper_1 \x7d from \"ext\";\n" ++
        "export \x7b helper_1 as x \x7d;\n" ∧
      relinked.code = "import \x7b default as helper_1 \x7d from \"ext\";\n" ++
        "export \x7b x \x7d;\n" ∧
      linked.definitions.entries = [("x", .identifier "helper_1")] ∧
      relinked.definitions.entries = [("x", .identifier "x")] ∧
      linked.mapsRewritten = true ∧ relinked.mapsRewritten = false := by
  obtain ⟨linked, hlink, hread⟩ := exists_eq_ok_of_map_toOption
    (backedImportBuild.link ⟨0⟩ [⟨0⟩, ⟨1⟩]).result
    (fun linked => (linked.code, linked.definitions.entries, linked.mapsRewritten))
    (y := ("import \x7b default as helper_1 \x7d from \"ext\";\n" ++
      "export \x7b helper_1 as x \x7d;\n", [("x", .identifier "helper_1")], true)) (by decide)
  obtain ⟨relinked, hrelink, hagain⟩ := exists_eq_ok_of_map_toOption
    ((backedImportBuild.link ⟨0⟩ [⟨0⟩, ⟨1⟩]).build.link ⟨0⟩ [⟨0⟩, ⟨1⟩]).result
    (fun linked => (linked.code, linked.definitions.entries, linked.mapsRewritten))
    (y := ("import \x7b default as helper_1 \x7d from \"ext\";\n" ++
      "export \x7b x \x7d;\n", [("x", .identifier "x")], false)) (by decide +kernel)
  obtain ⟨hcode, hdefinitions, hchanged⟩ := Prod.mk.inj hread |>.imp id Prod.mk.inj
  obtain ⟨hnewCode, hnewDefinitions, hkept⟩ := Prod.mk.inj hagain |>.imp id Prod.mk.inj
  exact ⟨linked, relinked, hlink, hrelink, hcode, hnewCode, hdefinitions, hnewDefinitions,
    hchanged, hkept⟩

end Build

end ModuleLinker
