import ModuleLinker.Concatenation.Basic
import ModuleLinker.Interface.Statement

/-!
# Planning an interface

Every export of a module that is provided, used and not dangling appears in the
interface.  An export that is a binding is listed.  An export that is another
expression declares its own binding if its name is free for that, and is
listed under an alias if not.  An export without a definition gets an alias for
its constant or for its property of the exports object.

The names of aliases are handed out with `Scope.allocate`, as those of a merged
scope are, and are those that requests yield; a name that was found and is taken
after all does not come up.
-/

namespace ModuleLinker

/-- A library as its options describe it: the whole interface of a module, or a
single export of it. -/
structure Library where
  only : Option String
deriving DecidableEq, Repr

namespace Library

/-- The library that options describe.  A name is refused. -/
def ofOptions (options : LibraryOptions) : Except LinkError Library :=
  match options.name with
  | some name => .error (.libraryNamed name)
  | none => .ok ⟨options.restriction.bind Restriction.first?⟩

/-- Check that a library fits a module: the module is registered and lists the
single export, if there is one. -/
def checkAgainst (library : Library) (registry : ExportRegistry) (module : ModuleId) :
    Except LinkError Unit :=
  match registry.table? module with
  | none => .error (.unregistered module)
  | some table =>
    match library.only with
    | none => .ok ()
    | some name => if table.lists name then .ok () else .error (.noSuchExport module name)

/-- The exports of a table that a library selects, in the order of their
declaration. -/
def selected (library : Library) (table : ExportTable) : List Export :=
  match library.only with
  | none => table.declared
  | some name => (table.exports.find? name).toList

end Library

/-- The state of planning: the names taken so far and the statements planned so
far. -/
structure Draft where
  scope : Scope
  exports : List (String × Reference)
  aliases : List AliasDeclaration
  listed : List ListedExport
  declared : List DeclaredExport
deriving DecidableEq, Repr

namespace Draft

/-- A draft without statements. -/
def start (scope : Scope) : Draft := ⟨scope, [], [], [], []⟩

/-- Declare an alias for an export; its name is close to the name of the
export. -/
def declareAlias (draft : Draft) (exported init : String) : String × Draft :=
  let (name, scope) := draft.scope.allocate (exportsObject ++ Identifier.clean exported)
  (name, { draft with scope, aliases := draft.aliases ++ [⟨name, init⟩] })

/-- Note that an export is in the interface. -/
def record (draft : Draft) (exported : String) (reference : Reference) : Draft :=
  { draft with exports := draft.exports ++ [(exported, reference)] }

/-- List a binding under the name of an export. -/
def list (draft : Draft) (binding exported : String) : Draft :=
  { draft with listed := draft.listed ++ [⟨binding, exported⟩] }

/-- Export an expression: under a binding of the same name if that name is free
and can be one, and else under an alias. -/
def exportExpression (draft : Draft) (exported expression : String) : Draft :=
  if draft.scope.isTaken exported || !Identifier.isIdentifier exported then
    let (name, after) := draft.declareAlias exported expression
    after.list name exported
  else
    { draft with
      scope := draft.scope.reserve exported
      declared := draft.declared ++ [⟨exported, expression⟩] }

/-- Export what a definition says. -/
def exportDefined (draft : Draft) (exported : String) : Reference → Draft
  | .identifier name => (draft.record exported (.identifier name)).list name exported
  | .expression text => (draft.record exported (.expression text)).exportExpression exported text

/-- Export the value of an expression under an alias. -/
def exportAliased (draft : Draft) (exported init : String) : Draft :=
  let (name, after) := draft.declareAlias exported init
  (after.record exported (.identifier name)).list name exported

/-- Whether an export leads nowhere.  A missing default export does not count,
because the module that should provide it may be one without exports. -/
def isDangling : Resolution → Bool
  | .origin _ => false
  | .namespaceOf _ => false
  | .missing site => decide (site.name ≠ "default")
  | .undetermined _ => true
  | .circular _ => true

/-- The value of an export that has no definition: its constant, or its property
of the exports object. -/
def undefinedInit (e : Export) (accessName : String) : String :=
  match e.constant with
  | some literal => literal.source
  | none => exportsObject ++ Quoted.property accessName

/-- The name under which an export is accessed if it belongs in the interface
of a module. -/
def visibleName? (facts : BuildFacts) (module : ModuleId) (e : Export) : Option String :=
  if e.provision ≠ .provided then none
  else if isDangling (facts.registry.resolve ⟨module, e.name⟩) then none
  else e.accessName facts.runtime

/-- Plan one export. -/
def planExport (facts : BuildFacts) (module : ModuleId) (definitions : ExportMap)
    (draft : Draft) (e : Export) : Draft :=
  match visibleName? facts module e with
  | none => draft
  | some accessName =>
    match definitions.find? accessName with
    | some reference => draft.exportDefined e.name reference
    | none => draft.exportAliased e.name (undefinedInit e accessName)

end Draft

namespace Interface

/-- The scope in which an interface is planned: that of the concatenation, or
that of the module's own code. -/
def startScope (facts : BuildFacts) (module : ModuleId) :
    Option Concatenation → Scope
  | some unit => unit.scope
  | none => (Scope.ofNames [exportsObject]).reserveAll (facts.codeOf module).topLevelNames

/-- What the used export names of a module stand for, as far as it is known. -/
def definitionsOf (facts : BuildFacts) (module : ModuleId) : ExportMap :=
  (facts.codeOf module).definitions.getD ∅

/-- Plan the interface of a module.  Only the wrapper of a concatenated module
can be omitted, and the definitions taps decide about it. -/
def plan (build : Build) (library : Library) (module : ModuleId)
    (unit : Option Concatenation) : Journaled (Except LinkError Interface) :=
  match build.registry.table? module with
  | none => pure (.error (.unregistered module))
  | some table => do
    let facts := build.toBuildFacts
    let definitions := definitionsOf facts module
    let draft :=
      (library.selected table).foldl (Draft.planExport facts module definitions)
        (Draft.start (startScope facts module unit))
    let verdict ←
      if unit.isSome then
        DefinitionsTap.firstVerdict definitions module facts build.extensions.bailoutTaps
          build.extensions.definitionsTaps
      else pure none
    pure (.ok {
      module
      isAsynchronous := facts.importGraph.isAsynchronous module
      keyword := facts.configuration.declarationKeyword
      exports := draft.exports
      aliases := draft.aliases
      listed := draft.listed
      declared := draft.declared
      wrapperOmittable := verdict.getD false })

/-- Append the interface of a module to the code before it. -/
def startup (build : Build) (library : Library) (codeBefore : String) (module : ModuleId)
    (unit : Option Concatenation) : Journaled (Except LinkError String) := do
  match ← plan build library module unit with
  | .error reason => pure (.error reason)
  | .ok interface => pure (.ok (codeBefore ++ interface.source))

end Interface

end ModuleLinker
