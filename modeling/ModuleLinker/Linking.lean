import ModuleLinker.Concatenation.Fingerprint
import ModuleLinker.Imports.Rebinding
import ModuleLinker.Interface.Plan
import ModuleLinker.Interface.Wrapper

/-!
# Linking a library

Linking merges the members around a root, records what came of it in the facts
about generated code, and writes the interface of the root.  Without members the
root stands on its own, and its exports are read from the exports object.
-/

namespace ModuleLinker

/-- What linking a library yields.  The code holds import statements and then
the interface; there is a fingerprint if anything was merged. -/
structure LinkedLibrary where
  root : ModuleId
  code : String
  definitions : ExportMap
  wrapperOmittable : Bool
  mapsRewritten : Bool
  fingerprint : Option String
deriving DecidableEq, Repr

/-- What an attempt to link leaves behind: the build, the journal, and the
library or the reason why there is none. -/
structure LinkOutcome where
  build : Build
  journal : List JournalEntry
  result : Except LinkError LinkedLibrary

namespace Build

/-- A build with the extensions that every build normally has: imports are
rebound, and wrappers are omitted where possible. -/
def withStandardExtensions (configuration : Configuration) : Build :=
  ((empty configuration).addMapTap Rebinding.tap).addDefinitionsTap Wrapper.tap

/-- Record a concatenation in the facts about generated code: the definitions of
its root and the import statements of its members. -/
def publish (build : Build) (unit : Concatenation) (definitions : ExportMap) : Build :=
  let withDefinitions :=
    build.code.edit unit.root build.runtime fun code =>
      { code with definitions := some definitions }
  let editImports (table : CodeTable) (entry : ModuleId × Member) : CodeTable :=
    table.edit entry.1 build.runtime fun code => { code with imports := entry.2.imports }
  { build with code := unit.members.entries.foldl editImports withDefinitions }

/-- The import statements in generated code. -/
def importSource (statements : List ImportStatement) : String :=
  String.join (statements.map ImportStatement.source)

/-- Finish linking in a build in which the concatenation, if there is one, has
been published. -/
def finish (build : Build) (library : Library) (root : ModuleId)
    (unit : Option Concatenation) (imports : List ImportStatement) (definitions : ExportMap)
    (journal : List JournalEntry) : LinkOutcome :=
  let planned := Interface.plan build library root unit
  match planned.value with
  | .error reason => ⟨build, journal ++ planned.entries, .error reason⟩
  | .ok interface =>
    { build
      journal := journal ++ planned.entries ++
        [.linked root interface.exports.length interface.wrapperOmittable]
      result := .ok {
        root
        code := importSource imports ++ interface.source
        definitions
        wrapperOmittable := interface.wrapperOmittable
        mapsRewritten := unit.elim false Concatenation.rewritten
        fingerprint := unit.map Concatenation.fingerprint } }

/-- Link a library whose options are in order, with its members merged unless
there are none. -/
def linkMembers (build : Build) (library : Library) (root : ModuleId)
    (members : List ModuleId) : LinkOutcome :=
  let warnings := build.registry.cycles.map JournalEntry.circularExports
  if members.isEmpty then
    build.finish library root none (build.toBuildFacts.codeOf root).imports ∅ warnings
  else
    let merged := Concatenation.build build root members
    let journal := warnings ++ merged.entries
    match merged.value with
    | .error reason => ⟨build, journal, .error reason⟩
    | .ok unit =>
      let definitions := unit.definitions build.registry
      (build.publish unit definitions).finish library root (some unit)
        (unit.members.values.flatMap Member.imports) definitions journal

/-- Link the library of a root with its members.  The options of the library are
checked before anything else. -/
def link (build : Build) (root : ModuleId) (members : List ModuleId) : LinkOutcome :=
  match Library.ofOptions build.configuration.library with
  | .error reason => ⟨build, [], .error reason⟩
  | .ok library =>
    match library.checkAgainst build.registry root with
    | .error reason => ⟨build, [], .error reason⟩
    | .ok () => build.linkMembers library root members

end Build

end ModuleLinker
