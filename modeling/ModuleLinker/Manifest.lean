import ModuleLinker.Linking
import ModuleLinker.Number.Width
import ModuleLinker.Record
import ModuleLinker.Toml.Parser

/-!
# Manifests

A manifest lists the facts about the modules and chunks of a build, the root of
the library, and the members to be merged with it.  Loading it into a build
registers all modules first, so that exports can forward to modules that are
listed later.
-/

namespace ModuleLinker

/-- The facts about one module in a manifest. -/
structure ModuleManifest where
  id : ModuleId
  name : String
  isAsynchronous : Bool
  dependencies : List ModuleId
  others : Provision
  exports : List Export
  declarations : List String
  backing : OrderedMap String String
  definitions : Option ExportMap
  imports : List ImportStatement

/-- The facts about one chunk in a manifest. -/
structure ChunkManifest where
  id : ChunkId
  name : Option String
  hasRuntime : Bool
  entries : List ModuleId
  modules : List ModuleId
deriving DecidableEq, Repr

/-- The facts about a build, and what to link of it. -/
structure Manifest where
  root : ModuleId
  members : List ModuleId
  modules : List ModuleManifest
  chunks : List ChunkManifest

namespace ManifestReader

/-- The number of a module. -/
def moduleId : Reader ModuleId := fun strictness document =>
  (Reader.word strictness document).map ModuleId.mk

/-- The number of a chunk. -/
def chunkId : Reader ChunkId := fun strictness document =>
  (Reader.word strictness document).map ChunkId.mk

/-- The provision with a name. -/
def provisionNamed? (name : String) : Option Provision :=
  if name = "provided" then some .provided
  else if name = "not-provided" then some .notProvided
  else if name = "unknown" then some .unknown
  else none

/-- Whether an export is provided. -/
def provision : Reader Provision := Reader.unitVariant provisionNamed?

/-- The usage with a name, except the renaming one. -/
def usageNamed? (name : String) : Option Usage :=
  if name = "unused" then some .unused
  else if name = "used" then some .used
  else if name = "namespace" then some .wholeNamespace
  else none

/-- How a runtime uses an export. -/
def usage : Reader Usage
  | strictness, .table [("renamed", content)] =>
    (Reader.text strictness content).map Usage.renamed
  | strictness, document => Reader.unitVariant usageNamed? strictness document

/-- What an export name stands for: a table of one entry, whose key is the kind
of the reference. -/
def reference : Reader Reference
  | strictness, .table [("identifier", content)] =>
    (Reader.text strictness content).map Reference.identifier
  | strictness, .table [("expression", content)] =>
    (Reader.text strictness content).map Reference.expression
  | _, _ => none

/-- A constant.  Whole numbers of up to 64 bits become floating-point
numbers. -/
def constant : Reader Literal
  | _, .boolean value => some (.boolean value)
  | _, .integer n =>
    if fitsInBits 64 n then
      some (.number (Decimal.nearest (decide (n < 0)) n.natAbs 0))
    else none
  | _, .float value => some (.number value)
  | _, .text value => some (.text value)
  | _, _ => none

/-- Where a re-export leads.  Further keys are ignored. -/
def forward : Reader Forward := fun strictness document => do
  let fields ← Fields.open? ["module", "export"] strictness document
  let module ← fields.required "module" moduleId
  let name ← fields.optionalAnywhere "export" Reader.text
  some ⟨module, name⟩

/-- An export. -/
def exportEntry : Reader Export := fun strictness document => do
  let fields ← Fields.closed? ["name", "provided", "usage", "target", "constant"] strictness document
  let name ← fields.required "name" Reader.text
  let provision ← fields.withDefault "provided" provision .provided
  let usage ← fields.withDefault "usage" (Reader.map usage) ∅
  let forward ← fields.optional "target" forward
  let constant ← fields.optional "constant" constant
  some { name, provision, usage, forward, constant }

/-- An import statement, whose specifiers are written as a table. -/
def importStatement : Reader ImportStatement := fun strictness document => do
  let fields ← Fields.closed? ["request", "imports"] strictness document
  let request ← fields.required "request" Reader.text
  let specifiers ← fields.withDefault "imports" (Reader.map Reader.text) ∅
  some ⟨request, specifiers.entries.map fun entry => ⟨entry.1, entry.2⟩⟩

/-- The facts about a module. -/
def moduleManifest : Reader ModuleManifest := fun strictness document => do
  let fields ← Fields.closed?
    ["id", "name", "async", "dependencies", "other-exports", "exports",
      "top-level-declarations", "local-exports", "exports-final-name", "external-imports"]
    strictness document
  let id ← fields.required "id" moduleId
  let name ← fields.required "name" Reader.text
  let isAsynchronous ← fields.withDefault "async" Reader.boolean false
  let dependencies ← fields.withDefault "dependencies" (Reader.list moduleId) []
  let others ← fields.withDefault "other-exports" provision .notProvided
  let exports ← fields.withDefault "exports" (Reader.list exportEntry) []
  let declarations ← fields.withDefault "top-level-declarations" (Reader.list Reader.text) []
  let backing ← fields.withDefault "local-exports" (Reader.map Reader.text) ∅
  let definitions ← fields.optionalAnywhere "exports-final-name" (Reader.map reference)
  let imports ← fields.withDefault "external-imports" (Reader.list importStatement) []
  some {
    id, name, isAsynchronous, dependencies, others, exports, declarations, backing, definitions,
    imports }

/-- The facts about a chunk. -/
def chunkManifest : Reader ChunkManifest := fun strictness document => do
  let fields ← Fields.closed? ["id", "name", "has-runtime", "entry-modules", "modules"] strictness document
  let id ← fields.required "id" chunkId
  let name ← fields.optional "name" Reader.text
  let hasRuntime ← fields.withDefault "has-runtime" Reader.boolean false
  let entries ← fields.withDefault "entry-modules" (Reader.list moduleId) []
  let modules ← fields.withDefault "modules" (Reader.list moduleId) []
  some { id, name, hasRuntime, entries, modules }

end ManifestReader

namespace Manifest

/-- The manifest that a document describes. -/
def ofDocument? : Reader Manifest := fun strictness document => do
  let fields ← Fields.closed? ["root", "members", "modules", "chunks"] strictness document
  let root ← fields.required "root" ManifestReader.moduleId
  let members ← fields.withDefault "members" (Reader.list ManifestReader.moduleId) []
  let modules ← fields.withDefault "modules" (Reader.list ManifestReader.moduleManifest) []
  let chunks ← fields.withDefault "chunks" (Reader.list ManifestReader.chunkManifest) []
  some { root, members, modules, chunks }

/-- The manifest that a TOML text describes. -/
def ofToml? (text : String) : Option Manifest := (Toml.parse? text).bind (ofDocument? .lenient)

end Manifest

namespace ModuleManifest

/-- Add the exports of a list to a registered module. -/
def addExports (module : ModuleId) :
    List Export → ExportRegistry → Except LinkError ExportRegistry
  | [], registry => .ok registry
  | e :: rest, registry =>
    match registry.addExport module e with
    | .error reason => .error reason
    | .ok after => addExports module rest after

/-- What loading makes of the facts about a module's code: declarations add up,
and everything else is replaced. -/
def mergeCode (manifest : ModuleManifest) (code : ModuleCode) : ModuleCode :=
  { declarations := code.declarations.insertAll manifest.declarations
    backing := manifest.backing
    definitions := manifest.definitions
    imports := manifest.imports }

/-- Load the facts about a registered module into a build. -/
def load (manifest : ModuleManifest) (build : Build) : Except LinkError Build := do
  let others ← build.registry.setOthers manifest.id manifest.others
  let registry ← addExports manifest.id manifest.exports others
  let linked :=
    manifest.dependencies.foldl (fun graph dependency => graph.addImport manifest.id dependency)
      build.importGraph
  let importGraph :=
    if manifest.isAsynchronous then linked.setAsynchronous manifest.id else linked
  let code := build.code.edit manifest.id build.runtime manifest.mergeCode
  .ok { build with registry, importGraph, code }

end ModuleManifest

namespace ChunkManifest

/-- The chunk that a manifest describes. -/
def chunk (manifest : ChunkManifest) : Chunk :=
  Chunk.ofModules manifest.id manifest.name manifest.hasRuntime manifest.modules manifest.entries

end ChunkManifest

namespace Manifest

/-- Register a module of a manifest. -/
def registerModule (build : Build) (manifest : ModuleManifest) : Build :=
  { build with
    registry := build.registry.register manifest.id manifest.name
    importGraph := build.importGraph.add manifest.id }

/-- Add a chunk of a manifest. -/
def addChunk (build : Build) (manifest : ChunkManifest) : Build :=
  { build with chunks := build.chunks.add manifest.chunk }

/-- Load the modules of a list, one after the other. -/
def loadModules : List ModuleManifest → Build → Except LinkError Build
  | [], build => .ok build
  | manifest :: rest, build =>
    match manifest.load build with
    | .error reason => .error reason
    | .ok after => loadModules rest after

/-- Load a manifest into a build: register all modules, then load them, and add
the chunks last. -/
def load (manifest : Manifest) (build : Build) : Except LinkError Build := do
  let loaded ← loadModules manifest.modules (manifest.modules.foldl registerModule build)
  .ok (manifest.chunks.foldl addChunk loaded)

/-- Link what a manifest describes in a build of its own. -/
def link (manifest : Manifest) (configuration : Configuration) : LinkOutcome :=
  let start := Build.withStandardExtensions configuration
  match manifest.load start with
  | .error reason => ⟨start, [], .error reason⟩
  | .ok build => build.link manifest.root manifest.members

end Manifest

end ModuleLinker
