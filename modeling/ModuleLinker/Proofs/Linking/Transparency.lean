import ModuleLinker.Proofs.Linking.Atomicity
import ModuleLinker.Proofs.Linking.Relinking

/-!
# Rebinding is transparent

Rebinding changes import statements and reports that it did.  Nothing else can tell whether
it took place: the names, the definitions, the fingerprint and the interface are those of a
library that is linked without any map tap, and so is every reason to fail.  The import
statements in front of the interface differ in bindings only, and the report of changes is
exactly that some binding differs.
-/

namespace ModuleLinker

namespace ImportStatement

/-- Two import statements that differ in their bindings at most. -/
structure SameButBindings (first second : ImportStatement) : Prop where
  request_eq : first.request = second.request
  imported_eq : first.specifiers.map ImportSpecifier.imported =
    second.specifiers.map ImportSpecifier.imported

theorem SameButBindings.eq_of_bindings_eq {first second : ImportStatement}
    (h : SameButBindings first second) (hbindings : first.bindings = second.bindings) :
    first = second := by
  have hinjective : Function.Injective fun specifier : ImportSpecifier =>
      (specifier.imported, specifier.binding) := by
    rintro ⟨imported, binding⟩ ⟨otherImported, otherBinding⟩ heq
    obtain ⟨rfl, rfl⟩ := Prod.mk.inj heq
    rfl
  have hspecifiers : first.specifiers = second.specifiers := by
    apply hinjective.list_map
    rw [← List.zip_map', ← List.zip_map', h.imported_eq]
    exact congrArg _ hbindings
  cases first
  exact ImportStatement.mk.injEq .. |>.mpr ⟨h.request_eq, hspecifiers⟩

/-- Lists of statements that differ in bindings at most are equal exactly when no binding
differs. -/
theorem eq_iff_bindings_eq {firsts seconds : List ImportStatement}
    (h : List.Forall₂ SameButBindings firsts seconds) :
    firsts = seconds ↔ firsts.flatMap bindings = seconds.flatMap bindings := by
  refine ⟨fun heq => heq ▸ rfl, fun hbindings => ?_⟩
  induction h with
  | nil => rfl
  | @cons first second _ _ hhead _ ih =>
    have hlength : first.bindings.length = second.bindings.length := by
      have himported := congrArg List.length hhead.imported_eq
      rwa [List.length_map, List.length_map, ← List.length_map ImportSpecifier.binding,
        ← List.length_map ImportSpecifier.binding] at himported
    obtain ⟨hfirst, hrest⟩ := List.append_inj hbindings hlength
    rw [hhead.eq_of_bindings_eq hfirst, ih hrest]

end ImportStatement

/-- Rebinding leaves requests and imported names as they are. -/
theorem Rebinding.sameButBindings_rebindAll (map : ExportMap)
    (localNames : OrderedMap String String) (imports : List ImportStatement) :
    List.Forall₂ ImportStatement.SameButBindings imports (rebindAll map localNames imports) := by
  rw [rebindAll, List.forall₂_map_right_iff, List.forall₂_same]
  refine fun statement _ => ⟨rfl, ?_⟩
  rw [rebindStatement, List.map_map]
  rfl

namespace Concatenation

/-- A concatenation and the one that rebinding makes of the same members. -/
structure Rebinds (plain tapped : Concatenation) : Prop where
  root_eq : tapped.root = plain.root
  runtime_eq : tapped.runtime = plain.runtime
  scope_eq : tapped.scope = plain.scope
  exportMaps_eq : tapped.exportMaps = plain.exportMaps
  sameButBindings : List.Forall₂ ImportStatement.SameButBindings
    (plain.members.values.flatMap Member.imports) (tapped.members.values.flatMap Member.imports)
  rewritten_plain : plain.rewritten = false
  rewritten_iff : tapped.rewritten = true ↔
    plain.members.values.flatMap Member.imports ≠ tapped.members.values.flatMap Member.imports

/-- The concatenation of named members that no tap has seen. -/
def untapped (root : ModuleId) (runtime : Runtime) (named : NamedMembers) : Concatenation where
  root := root
  runtime := runtime
  members := OrderedMap.ofList (named.members.map fun member => (member.module, member))
  scope := named.scope
  outside := named.outside
  rewritten := false

theorem entries_untapped (root : ModuleId) (runtime : Runtime) {named : NamedMembers}
    (h : (named.members.map Member.module).Nodup) :
    (untapped root runtime named).members.entries =
      named.members.map fun member => (member.module, member) := by
  apply OrderedMap.entries_ofList_of_nodup
  rw [List.map_map]
  exact h

theorem flatMap_imports_untapped (root : ModuleId) (runtime : Runtime) {named : NamedMembers}
    (h : (named.members.map Member.module).Nodup) :
    (untapped root runtime named).members.values.flatMap Member.imports =
      named.members.flatMap Member.imports := by
  rw [OrderedMap.values, entries_untapped root runtime h, List.map_map, List.flatMap_map]
  rfl

theorem rebinds_ofNamed (root : ModuleId) (runtime : Runtime) {named : NamedMembers}
    (h : (named.members.map Member.module).Nodup) :
    Rebinds (untapped root runtime named) (ofNamed root runtime named) := by
  have hplain := flatMap_imports_untapped root runtime h
  have htapped : (ofNamed root runtime named).members.values.flatMap Member.imports =
      named.members.flatMap fun member =>
        Rebinding.rebindAll member.exportMap member.localNames member.imports := by
    rw [values_ofNamed root runtime h, List.flatMap_map]
    rfl
  refine ⟨rfl, rfl, rfl, ?_, ?_, rfl, ?_⟩
  · rw [exportMaps, exportMaps, entries_untapped root runtime h, entries_ofNamed root runtime h,
      List.map_map, List.map_map]
    rfl
  · rw [hplain, htapped]
    exact List.rel_flatMap (R := Eq) (List.forall₂_refl _) fun member _ heq =>
      heq ▸ Rebinding.sameButBindings_rebindAll _ _ _
  · rw [hplain, htapped, rewritten_ofNamed, ne_comm, ne_eq, ← any_isRebound_eq_false_iff,
      Bool.not_eq_false]

variable {build : Build} {root : ModuleId} {modules : List ModuleId} {unit : Concatenation}

theorem eq_untapped_of_build (htaps : build.extensions.mapTaps = [])
    (h : (Concatenation.build build root modules).value = .ok unit) :
    unit = untapped root build.runtime
      (NamedMembers.ofModules build.toBuildFacts (UniqueList.ofList modules)) := by
  obtain ⟨-, -, members, rewritten, htapped, heq⟩ := exists_of_build_eq_ok h
  rw [htaps, tapMembers_nil, Except.ok.injEq, Prod.mk.injEq] at htapped
  obtain ⟨rfl, rfl⟩ := htapped
  exact heq

end Concatenation

/-- What rebinding changes about a linked library: the bindings in the import statements in
front of the interface, and the report that any of them changed. -/
structure LinkedLibrary.Rebound (plain tapped : LinkedLibrary)
    (originals imports : List ImportStatement) : Prop where
  root_eq : tapped.root = plain.root
  definitions_eq : tapped.definitions = plain.definitions
  fingerprint_eq : tapped.fingerprint = plain.fingerprint
  wrapperOmittable_eq : tapped.wrapperOmittable = plain.wrapperOmittable
  code_eq : ∃ text, plain.code = Build.importSource originals ++ text ∧
    tapped.code = Build.importSource imports ++ text
  sameButBindings : List.Forall₂ ImportStatement.SameButBindings originals imports
  mapsRewritten_plain : plain.mapsRewritten = false
  mapsRewritten_iff : tapped.mapsRewritten = true ↔
    originals.flatMap ImportStatement.bindings ≠ imports.flatMap ImportStatement.bindings

namespace Build

/-- The build with other map taps. -/
def withMapTaps (build : Build) (mapTaps : List MapTap) : Build :=
  { build with extensions := { build.extensions with mapTaps } }

@[simp] theorem registry_withMapTaps (build : Build) (mapTaps : List MapTap) :
    (build.withMapTaps mapTaps).registry = build.registry := rfl

variable {build : Build} {root : ModuleId} {members : List ModuleId} {linked : LinkedLibrary}

/-- Members cannot be merged with rebinding exactly when they cannot without. -/
theorem merge_eq_error_iff (build : Build) (root : ModuleId) (modules : List ModuleId)
    (reason : LinkError) :
    (Concatenation.build (build.withMapTaps [Rebinding.tap]) root modules).value =
        .error reason ↔
      (Concatenation.build (build.withMapTaps []) root modules).value = .error reason := by
  have htapped : (Concatenation.build (build.withMapTaps [Rebinding.tap]) root modules).value =
      .error reason ↔ Concatenation.refusal? build.registry root modules = some reason :=
    Concatenation.build_eq_error_iff (Concatenation.tapMembers_rebinding _)
  have hplain : (Concatenation.build (build.withMapTaps []) root modules).value =
      .error reason ↔ Concatenation.refusal? build.registry root modules = some reason :=
    Concatenation.build_eq_error_iff (Concatenation.tapMembers_nil _)
  exact htapped.trans hplain.symm

theorem refuses_withMapTaps_iff (build : Build) (root : ModuleId) (members : List ModuleId)
    (reason : LinkError) :
    (build.withMapTaps [Rebinding.tap]).Refuses root members reason ↔
      (build.withMapTaps []).Refuses root members reason := by
  have hmerge := merge_eq_error_iff build root members reason
  constructor
  · intro h
    cases h with
    | options hoptions => exact .options hoptions
    | library hoptions hcheck => exact .library hoptions hcheck
    | merging hoptions hcheck hmembers hbuild =>
      exact .merging hoptions hcheck hmembers (hmerge.mp hbuild)
  · intro h
    cases h with
    | options hoptions => exact .options hoptions
    | library hoptions hcheck => exact .library hoptions hcheck
    | merging hoptions hcheck hmembers hbuild =>
      exact .merging hoptions hcheck hmembers (hmerge.mpr hbuild)

/-- The units that are merged with rebinding and without any map tap. -/
theorem exists_rebinds {tapped : Concatenation}
    (htapped : (Concatenation.build (build.withMapTaps [Rebinding.tap]) root members).value =
      .ok tapped) :
    ∃ plain, (Concatenation.build (build.withMapTaps []) root members).value = .ok plain ∧
      plain.Rebinds tapped ∧
      plain.members.values.flatMap Member.imports =
        build.importsOf (UniqueList.ofList members).toList := by
  cases hplain : (Concatenation.build (build.withMapTaps []) root members).value with
  | error reason =>
    rw [(merge_eq_error_iff build root members reason).mpr hplain] at htapped
    exact absurd htapped (by simp)
  | ok plain =>
    have hnodup := NamedMembers.nodup_module_members build.toBuildFacts
      (UniqueList.ofList members)
    have hrebinds := Concatenation.rebinds_ofNamed root build.runtime hnodup
    rw [Concatenation.eq_ofNamed_of_build (by rfl) htapped,
      Concatenation.eq_untapped_of_build (by rfl) hplain]
    exact ⟨_, rfl, hrebinds, (Concatenation.flatMap_imports_untapped root build.runtime hnodup).trans
      (NamedMembers.flatMap_imports_members _ _)⟩

/-- Linking a root without members succeeds if its options are in order and fit it. -/
theorem result_link_nil {library : Library} {interface : Interface}
    (hoptions : Library.ofOptions build.configuration.library = .ok library)
    (hcheck : library.checkAgainst build.registry root = .ok ())
    (hplan : (Interface.plan build library root none).value = .ok interface) :
    (build.link root []).result = .ok {
      root
      code := importSource (build.toBuildFacts.codeOf root).imports ++ interface.source
      definitions := ∅
      wrapperOmittable := interface.wrapperOmittable
      mapsRewritten := false
      fingerprint := none } := by
  obtain ⟨journal, hfinish⟩ := exists_finish_eq (build.toBuildFacts.codeOf root).imports ∅
    (build.registry.cycles.map JournalEntry.circularExports) hplan
  rw [link_eq_linkMembers hoptions hcheck]
  exact congrArg LinkOutcome.result hfinish

/-- Merged members have the same plan with rebinding and without any map tap. -/
theorem value_plan_of_rebinds (hbailout : ∀ tap ∈ build.extensions.bailoutTaps, tap.IgnoresCode)
    (hdefinitionsTaps : ∀ tap ∈ build.extensions.definitionsTaps, tap.IgnoresCode)
    {plain tapped : Concatenation} (hrebinds : plain.Rebinds tapped) (library : Library)
    (definitions : ExportMap) :
    (Interface.plan ((build.withMapTaps [Rebinding.tap]).publish tapped definitions) library
        plain.root (some tapped)).value =
      (Interface.plan ((build.withMapTaps []).publish plain definitions) library plain.root
        (some plain)).value := by
  have hdefinitions := definitionsOf_publish (build.withMapTaps [Rebinding.tap]) tapped definitions
  rw [hrebinds.root_eq] at hdefinitions
  exact Interface.value_plan_withCode ((build.withMapTaps []).publish plain definitions) hbailout
    hdefinitionsTaps library hrebinds.scope_eq
    (hdefinitions.trans (definitionsOf_publish (build.withMapTaps []) plain definitions).symm)

/-- Linking merged members with rebinding and without any map tap. -/
theorem exists_rebound_of_link (hbailout : ∀ tap ∈ build.extensions.bailoutTaps, tap.IgnoresCode)
    (hdefinitionsTaps : ∀ tap ∈ build.extensions.definitionsTaps, tap.IgnoresCode)
    (hmembers : members ≠ [])
    (hlink : ((build.withMapTaps [Rebinding.tap]).link root members).result = .ok linked) :
    ∃ plain, ((build.withMapTaps []).link root members).result = .ok plain ∧
      plain.Rebound linked (build.importsOf (UniqueList.ofList members).toList)
        (((build.withMapTaps [Rebinding.tap]).link root members).build.importsOf
          (UniqueList.ofList members).toList) := by
  obtain ⟨library, tapped, interface, hoptions, hcheck, htapped, hplan, hlinked, hafter⟩ :=
    exists_of_link_eq_ok hmembers hlink
  obtain ⟨plain, hplain, hrebinds, horiginals⟩ := exists_rebinds htapped
  obtain ⟨planned, hplanned, hplainLink⟩ :=
    exists_link_eq_ok (build.withMapTaps []) hoptions hcheck hmembers hplain
  have hdefinitions : tapped.definitions build.registry = plain.definitions build.registry :=
    Concatenation.definitions_eq_of_exportMaps_eq hrebinds.root_eq hrebinds.runtime_eq
      hrebinds.exportMaps_eq build.registry
  rw [registry_withMapTaps, hdefinitions] at hplan hlinked hafter
  have hroot : plain.root = root := Concatenation.root_of_build hplain
  have hinterface : interface = planned := by
    have hsame := value_plan_of_rebinds hbailout hdefinitionsTaps hrebinds library
      (plain.definitions build.registry)
    rw [hroot, hplan, ← registry_withMapTaps build [], hplanned] at hsame
    exact Except.ok.inj hsame
  have himports : ((build.withMapTaps [Rebinding.tap]).link root members).build.importsOf
      (UniqueList.ofList members).toList = tapped.members.values.flatMap Member.imports := by
    rw [hafter, ← Concatenation.modules_of_build htapped]
    exact Concatenation.importsOf_publish _ _ _
  refine ⟨_, hplainLink, ?_⟩
  rw [hlinked, himports, ← horiginals, hinterface]
  exact {
    root_eq := rfl
    definitions_eq := rfl
    fingerprint_eq :=
      congrArg some (Concatenation.fingerprint_eq_of_exportMaps_eq hrebinds.exportMaps_eq)
    wrapperOmittable_eq := rfl
    code_eq := ⟨planned.source, rfl, rfl⟩
    sameButBindings := hrebinds.sameButBindings
    mapsRewritten_plain := hrebinds.rewritten_plain
    mapsRewritten_iff := hrebinds.rewritten_iff.trans
      (not_congr (ImportStatement.eq_iff_bindings_eq hrebinds.sameButBindings)) }

/-- Nothing is rebound where nothing is merged. -/
theorem exists_rebound_of_link_nil
    (hlink : ((build.withMapTaps [Rebinding.tap]).link root []).result = .ok linked) :
    ∃ plain, ((build.withMapTaps []).link root []).result = .ok plain ∧
      plain.Rebound linked (build.importsOf [root]) (build.importsOf [root]) := by
  have hlinks := linksTo_link (build.withMapTaps [Rebinding.tap]) root []
  generalize (build.withMapTaps [Rebinding.tap]).link root [] = outcome at hlinks hlink
  cases hlinks with
  | refused _ => exact absurd hlink (by simp)
  | merged _ _ hmembers _ _ => exact absurd rfl hmembers
  | alone hoptions hcheck _ hplan =>
    have himports : build.importsOf [root] = (build.toBuildFacts.codeOf root).imports :=
      List.flatMap_singleton _ _
    refine ⟨_, result_link_nil hoptions hcheck hplan, ?_⟩
    rw [← Except.ok.inj hlink, himports]
    exact {
      root_eq := rfl
      definitions_eq := rfl
      fingerprint_eq := rfl
      wrapperOmittable_eq := rfl
      code_eq := ⟨_, rfl, rfl⟩
      sameButBindings := List.forall₂_same.mpr fun _ _ => ⟨rfl, rfl⟩
      mapsRewritten_plain := rfl
      mapsRewritten_iff := iff_of_false Bool.false_ne_true fun hne => hne rfl }

/-- The modules whose import statements stand in front of the interface: the members, or
the root if it is linked on its own. -/
def mergedModules (root : ModuleId) (members : List ModuleId) : List ModuleId :=
  if members.isEmpty then [root] else (UniqueList.ofList members).toList

/-- Rebinding is transparent.  Unless other taps read facts about generated code, linking
with rebinding and linking without any map tap fail for the same reason, or both succeed.
Then the libraries have the same definitions, the same fingerprint and the same decision
about the wrapper, and the same text follows the import statements, which differ in their
bindings at most.  With rebinding a change is reported exactly when some binding differs. -/
theorem rebinding_transparent (build : Build)
    (hbailout : ∀ tap ∈ build.extensions.bailoutTaps, tap.IgnoresCode)
    (hdefinitionsTaps : ∀ tap ∈ build.extensions.definitionsTaps, tap.IgnoresCode)
    (root : ModuleId) (members : List ModuleId) :
    (∀ reason, ((build.withMapTaps [Rebinding.tap]).link root members).result =
        .error reason ↔
      ((build.withMapTaps []).link root members).result = .error reason) ∧
    ∀ linked, ((build.withMapTaps [Rebinding.tap]).link root members).result = .ok linked →
      ∃ plain, ((build.withMapTaps []).link root members).result = .ok plain ∧
        plain.Rebound linked (build.importsOf (mergedModules root members))
          (((build.withMapTaps [Rebinding.tap]).link root members).build.importsOf
            (mergedModules root members)) := by
  refine ⟨fun reason => ?_, fun linked hlink => ?_⟩
  · rw [link_eq_error_iff, link_eq_error_iff, refuses_withMapTaps_iff]
  by_cases hmembers : members = []
  · subst hmembers
    rw [build_link_nil]
    exact exists_rebound_of_link_nil hlink
  · rw [mergedModules, if_neg (mt List.isEmpty_iff.mp hmembers)]
    exact exists_rebound_of_link hbailout hdefinitionsTaps hmembers hlink

/-- A bailout tap that objects to every module. -/
def objectingTap : BailoutTap where
  name := "objection"
  reason _ _ := pure (some "wrappers are needed")

/-- With rebinding the import gets another name, and without it does not; the interface and
the fingerprint are the same. -/
theorem rebinding_transparent_renamed :
    let build := renamedImportBuild.addBailoutTap objectingTap
    ∃ linked plain,
      ((build.withMapTaps [Rebinding.tap]).link ⟨0⟩ [⟨0⟩, ⟨1⟩]).result = .ok linked ∧
      ((build.withMapTaps []).link ⟨0⟩ [⟨0⟩, ⟨1⟩]).result = .ok plain ∧
      linked.code = "import \x7b join as join_1 \x7d from \"node:path\";\n" ∧
      plain.code = "import \x7b join \x7d from \"node:path\";\n" ∧
      linked.mapsRewritten = true ∧ plain.mapsRewritten = false ∧
      linked.fingerprint = plain.fingerprint := by
  intro build
  obtain ⟨linked, hlink, hread⟩ := exists_eq_ok_of_map_toOption
    ((build.withMapTaps [Rebinding.tap]).link ⟨0⟩ [⟨0⟩, ⟨1⟩]).result
    (fun linked => (linked.code, linked.mapsRewritten))
    (y := ("import \x7b join as join_1 \x7d from \"node:path\";\n", true)) (by decide)
  obtain ⟨other, hother, hcode⟩ := exists_eq_ok_of_map_toOption
    ((build.withMapTaps []).link ⟨0⟩ [⟨0⟩, ⟨1⟩]).result LinkedLibrary.code
    (y := "import \x7b join \x7d from \"node:path\";\n") (by decide)
  have hbailout : ∀ tap ∈ build.extensions.bailoutTaps, tap.IgnoresCode := by
    intro tap htap _ _ _
    rw [List.mem_singleton.mp htap]
    rfl
  have hdefinitionsTaps : ∀ tap ∈ build.extensions.definitionsTaps, tap.IgnoresCode :=
    fun _ htap => List.mem_singleton.mp htap ▸ Wrapper.ignoresCode_tap
  obtain ⟨-, htransparent⟩ :=
    rebinding_transparent build hbailout hdefinitionsTaps ⟨0⟩ [⟨0⟩, ⟨1⟩]
  obtain ⟨plain, hplain, hrebound⟩ := htransparent linked hlink
  have hsame : other = plain := Except.ok.inj (hother.symm.trans hplain)
  exact ⟨linked, plain, hlink, hplain, congrArg Prod.fst hread, hsame ▸ hcode,
    congrArg Prod.snd hread, hrebound.mapsRewritten_plain, hrebound.fingerprint_eq⟩

end Build

end ModuleLinker
