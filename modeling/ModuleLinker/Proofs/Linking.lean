import ModuleLinker.Proofs.Concatenation.Denotation
import ModuleLinker.Proofs.Exports.Histories
import ModuleLinker.Proofs.Linking.Publishing

/-!
# Names in a linked library

The interface of a merged root is planned in the scope of the concatenation, from
definitions that were published on the way.  All identifiers in these definitions
were taken from the export map of the root, so they are names of that scope, and
what the interface introduces beside them collides with nothing.
-/

namespace ModuleLinker

namespace Concatenation

/-- The definitions of a concatenation are references of its root. -/
theorem exists_reference_of_definitions {unit : Concatenation} {registry : ExportRegistry}
    {access : String} {reference : Reference}
    (h : (unit.definitions registry).find? access = some reference) :
    ∃ name, unit.reference? ⟨unit.root, name⟩ = some reference := by
  rw [definitions] at h
  split at h
  · exact absurd h (by simp)
  · rename_i map hmap
    rw [OrderedMap.find?_eq_some_iff] at h
    obtain ⟨entry, hentry, heq⟩ := List.mem_map.mp (OrderedMap.mem_of_mem_entries_ofList h)
    refine ⟨entry.1, ?_⟩
    rw [reference?, hmap, Option.bind_some, OrderedMap.find?_eq_some_iff,
      ← (Prod.mk.inj heq).2]
    exact hentry

end Concatenation

namespace Build

variable {build : Build} {root : ModuleId} {members : List ModuleId} {unit : Concatenation}
  {linked : LinkedLibrary}

/-- The interface of a library that was linked from members.  It introduces distinct
identifiers that the scope of the concatenation does not hold, and it lists nothing but
names of that scope and aliases. -/
theorem linked_interface (htaps : ∀ tap ∈ build.extensions.mapTaps, tap = Rebinding.tap)
    (hmembers : members ≠ []) (hlink : (build.link root members).result = .ok linked) :
    ∃ library unit interface, Library.ofOptions build.configuration.library = .ok library ∧
      (Concatenation.build build root members).value = .ok unit ∧
      (Interface.plan (build.publish unit (unit.definitions build.registry)) library root
        (some unit)).value = .ok interface ∧
      linked.code = importSource (unit.members.values.flatMap Member.imports) ++
        interface.source ∧
      unit.HoldsNames build.toBuildFacts ∧
      interface.introduced.Nodup ∧
      (∀ name ∈ interface.introduced,
        Identifier.isIdentifier name = true ∧ name ∉ unit.scope.names) ∧
      ∀ listed ∈ interface.listed, listed.binding ∈ unit.scope.names ∨
        listed.binding ∈ interface.aliases.map AliasDeclaration.name := by
  obtain ⟨library, unit, interface, hlibrary, -, hbuild, hplan, hlinked, -⟩ :=
    exists_of_link_eq_ok hmembers hlink
  obtain ⟨table, -, hshows⟩ := Interface.exists_shows_of_plan_eq_ok hplan
  have hnames := Concatenation.holdsNames_of_build htaps hbuild
  have haccount := Interface.accounted_draftFrom
    (build.publish unit (unit.definitions build.registry)).toBuildFacts library table root
    unit.scope
  have hcode := congrArg LinkedLibrary.code hlinked
  refine ⟨library, unit, interface, hlibrary, hbuild, hplan, hcode, hnames, ?_, ?_, ?_⟩
  · rw [hshows.introduced_eq]
    exact haccount.nodup_introduced
  · intro name hname
    rw [hshows.introduced_eq] at hname
    exact ⟨haccount.isIdentifier name hname, haccount.introduced_notMem hname⟩
  · rw [hshows.listed_eq, hshows.aliases_eq]
    intro listed hlisted
    apply (haccount.bound listed hlisted).imp_left
    rintro ⟨access, hdefined⟩
    obtain ⟨-, -, tapped, rewritten, -, heq⟩ := Concatenation.exists_of_build_eq_ok hbuild
    have hroot : unit.root = root := congrArg Concatenation.root heq
    rw [← hroot, definitionsOf_publish] at hdefined
    obtain ⟨name, hreference⟩ := Concatenation.exists_reference_of_definitions hdefined
    exact hnames.identifier_mem _ _ hreference

/-- A build in which the root imports a function and exports it again, and re-exports two
things from a module outside.  The other member declares a name that one of them has, and
imports something under the name of that function. -/
def outsideBuild : Build :=
  let own (name : String) : Export := ⟨name, .provided, ∅, none, none⟩
  let outside (name : String) : Export := ⟨name, .provided, ∅, some ⟨⟨2⟩, some name⟩, none⟩
  { withStandardExtensions default with
    registry := ExportRegistry.ofEdits [.register ⟨0⟩ "./index.js", .register ⟨1⟩ "./util.js",
      .register ⟨2⟩ "./lib.js", .addExport ⟨2⟩ (own "value"), .addExport ⟨2⟩ (own "path"),
      .addExport ⟨0⟩ (outside "value"), .addExport ⟨0⟩ (outside "path"),
      .addExport ⟨0⟩ (own "read")]
    code := ((∅ : CodeTable).edit ⟨0⟩ "main" fun code =>
        { code with imports := [⟨"node:fs", [⟨"readFile", "read"⟩]⟩] }).edit ⟨1⟩ "main" fun code =>
      { code with
        declarations := UniqueList.ofList ["value"]
        imports := [⟨"node:path", [⟨"join", "join"⟩, ⟨"sep", "read"⟩]⟩] } }

/-- The code that `outsideBuild` is linked to. -/
def outsideCode : String :=
  "import \x7b readFile as read \x7d from \"node:fs\";\n" ++
    "import \x7b join, sep as read_1 \x7d from \"node:path\";\n" ++
    "const __scopelink_exports__value = lib_namespace.value;\n" ++
    "export \x7b __scopelink_exports__value as value, read \x7d;\n" ++
    "export const path = lib_namespace.path;\n"

/-- What the exports of the root of `outsideBuild` stand for. -/
def outsideDefinitions : List (String × Reference) :=
  [("value", .expression "lib_namespace.value"), ("path", .expression "lib_namespace.path"),
    ("read", .identifier "read")]

theorem exists_link_outsideBuild :
    ∃ linked, (outsideBuild.link ⟨0⟩ [⟨0⟩, ⟨1⟩]).result = .ok linked ∧
      linked.code = outsideCode ∧ linked.definitions.entries = outsideDefinitions := by
  obtain ⟨linked, hlink, hread⟩ := exists_eq_ok_of_map_toOption
    (outsideBuild.link ⟨0⟩ [⟨0⟩, ⟨1⟩]).result
    (fun linked => (linked.code, linked.definitions.entries))
    (y := (outsideCode, outsideDefinitions)) (by decide +kernel)
  obtain ⟨hcode, hdefinitions⟩ := Prod.mk.inj hread
  exact ⟨linked, hlink, hcode, hdefinitions⟩

/-- Of the re-exports one gets an alias, since the other member has its name, and one is declared
under its own name.  The second import of one name has been renamed. -/
theorem linked_interface_outside :
    ∃ linked, (outsideBuild.link ⟨0⟩ [⟨0⟩, ⟨1⟩]).result = .ok linked ∧
      linked.code = outsideCode ∧
      ∃ library unit interface, Library.ofOptions outsideBuild.configuration.library = .ok library ∧
        (Concatenation.build outsideBuild ⟨0⟩ [⟨0⟩, ⟨1⟩]).value = .ok unit ∧
        (Interface.plan (outsideBuild.publish unit (unit.definitions outsideBuild.registry))
          library ⟨0⟩ (some unit)).value = .ok interface ∧
        unit.scope.names.toList =
          [exportsObject, "read", "value", "join", "read_1", "lib_namespace"] ∧
        interface.introduced = ["__scopelink_exports__value", "path"] ∧
        interface.introduced.Nodup ∧ (∀ name ∈ interface.introduced, name ∉ unit.scope.names) ∧
        ∀ listed ∈ interface.listed, listed.binding ∈ unit.scope.names ∨
          listed.binding ∈ interface.aliases.map AliasDeclaration.name := by
  obtain ⟨linked, hlink, hcode, -⟩ := exists_link_outsideBuild
  obtain ⟨library, unit, interface, hlibrary, hbuild, hplan, -, -, hnodup, hnew, hlisted⟩ :=
    linked_interface (fun _ => List.mem_singleton.mp) (List.cons_ne_nil _ _) hlink
  have hread : (Concatenation.build outsideBuild ⟨0⟩ [⟨0⟩, ⟨1⟩]).value.toOption.map (fun unit =>
      (unit.scope.names.toList,
        (Interface.plan (outsideBuild.publish unit (unit.definitions outsideBuild.registry))
          ⟨none⟩ ⟨0⟩ (some unit)).value.toOption.map Interface.introduced)) =
        some ([exportsObject, "read", "value", "join", "read_1", "lib_namespace"],
          some ["__scopelink_exports__value", "path"]) := by decide +kernel
  obtain rfl : ⟨none⟩ = library := Except.ok.inj hlibrary
  rw [hbuild] at hread
  obtain ⟨hnames, hintroduced⟩ := Prod.mk.inj (Option.some.inj hread)
  rw [hplan] at hintroduced
  exact ⟨linked, hlink, hcode, _, unit, interface, hlibrary, hbuild, hplan, hnames,
    Option.some.inj hintroduced, hnodup, fun name hname => (hnew name hname).2, hlisted⟩

end Build

end ModuleLinker
