import ModuleLinker.Concatenation.Member
import ModuleLinker.Exports.Resolution
import ModuleLinker.Extensions
import ModuleLinker.Scope

/-!
# Names in a merged scope

The names of a merged scope are handed out in three rounds, each over all members
in order.  First every top-level binding gets its name, then every export that
has no binding of its own, and last, when they are first needed, the namespaces
to which re-exports lead.  So a later member never changes the names that the
bindings of an earlier one got.

Names are handed out with `Scope.allocate`, so naming has no failures.  The names
are those that `Scope.request` yields, and it is shown that none of the requests
fails.
-/

namespace ModuleLinker

/-- The global name of the runtime's exports object, which no binding may
take. -/
def exportsObject : String := "__scopelink_exports__"

namespace Naming

/-- Give a new name to every local name that has none yet. -/
def nameLocals : Scope → OrderedMap String String → List String →
    Scope × OrderedMap String String
  | scope, names, [] => (scope, names)
  | scope, names, localName :: rest =>
    if names.contains localName then nameLocals scope names rest
    else
      let (name, after) := scope.allocate localName
      nameLocals after (names.insert localName name) rest

/-- The first round: the members with names for their top-level bindings,
numbered from `index` on. -/
def enterMembers (facts : BuildFacts) : Nat → Scope → List ModuleId → Scope × List Member
  | _, scope, [] => (scope, [])
  | index, scope, module :: rest =>
    let code := facts.codeOf module
    let (after, localNames) := nameLocals scope ∅ code.topLevelNames
    let (last, members) := enterMembers facts (index + 1) after rest
    (last, ⟨module, index, ∅, localNames, none, code.imports⟩ :: members)

/-- The exports of a module that can be linked: those that are provided and used
by the runtime of the build, in the order of their declaration. -/
def linkable (facts : BuildFacts) (module : ModuleId) : List Export :=
  match facts.registry.table? module with
  | none => []
  | some table =>
    table.declared.filter fun e =>
      decide (e.provision = .provided) && (e.accessName facts.runtime).isSome

/-- The binding of an export that does not forward: the one behind it, or a new
one when its module's code binds nothing for it. -/
def ownReference (code : ModuleCode) (localNames : OrderedMap String String) (scope : Scope)
    (e : Export) : Scope × Reference :=
  match localNames.find? (code.backingOf e.name) with
  | some name => (scope, .identifier name)
  | none => ((scope.allocate e.name).2, .identifier (scope.allocate e.name).1)

/-- The bindings of the exports in a list that do not forward. -/
def bindOwn (code : ModuleCode) (localNames : OrderedMap String String) :
    Scope → ExportMap → List Export → Scope × ExportMap
  | scope, map, [] => (scope, map)
  | scope, map, e :: rest =>
    if e.isForwarding then bindOwn code localNames scope map rest
    else
      let (after, reference) := ownReference code localNames scope e
      bindOwn code localNames after (map.insert e.name reference) rest

/-- The second round: for every member, the bindings of its exports that do not
forward. -/
def bindMembers (facts : BuildFacts) : Scope → List Member →
    Scope × List (ModuleId × ExportMap)
  | scope, [] => (scope, [])
  | scope, member :: rest =>
    let (after, own) :=
      bindOwn (facts.codeOf member.module) member.localNames scope ∅ (linkable facts member.module)
    let (last, others) := bindMembers facts after rest
    (last, (member.module, own) :: others)

/-- Drop every leading `./`. -/
def dropDotSlash : List Char → List Char
  | '.' :: '/' :: rest => dropDotSlash rest
  | cs => cs

/-- The characters after the last slash. -/
def afterLastSlash (cs : List Char) : List Char :=
  (cs.reverse.takeWhile fun c => c != '/').reverse

/-- The name on which the names of a module's namespaces are based: the file
name in its module name up to the first dot, cleaned. -/
def moduleBaseName (facts : BuildFacts) (module : ModuleId) : String :=
  match facts.registry.table? module with
  | none => "module_" ++ toString module.number.toNat
  | some table =>
    let fileName := afterLastSlash (dropDotSlash table.moduleName.toList)
    Identifier.clean (String.ofList (fileName.takeWhile fun c => c != '.'))

end Naming

/-- The state of the third round: the names taken, the names of the members'
namespace objects, and those of the namespaces of modules outside. -/
structure NamespaceNames where
  scope : Scope
  inside : OrderedMap ModuleId String
  outside : OrderedMap ModuleId String
deriving DecidableEq, Repr

namespace NamespaceNames

/-- The name of a member's namespace object, which is taken when it is first
asked for. -/
def insideName (names : NamespaceNames) (facts : BuildFacts) (module : ModuleId) :
    NamespaceNames × String :=
  match names.inside.find? module with
  | some name => (names, name)
  | none =>
    let (name, scope) :=
      names.scope.allocate (Naming.moduleBaseName facts module ++ "_namespaceObject")
    ({ names with scope, inside := names.inside.insert module name }, name)

/-- The name of the namespace of a module outside, which is taken when it is
first asked for. -/
def outsideName (names : NamespaceNames) (facts : BuildFacts) (module : ModuleId) :
    NamespaceNames × String :=
  match names.outside.find? module with
  | some name => (names, name)
  | none =>
    let (name, scope) :=
      names.scope.allocate (Naming.moduleBaseName facts module ++ "_namespace")
    ({ names with scope, outside := names.outside.insert module name }, name)

end NamespaceNames

namespace Naming

/-- The name under which the runtime of the build accesses a name of a module
outside: the one that the export asks for, or the name itself. -/
def outsideAccessName (facts : BuildFacts) (site : ExportSite) : String :=
  ((facts.registry.export? site).bind fun e => e.accessName facts.runtime).getD site.name

/-- What a resolved re-export stands for.  It has no meaning when its origin is
an export of a member that has no binding. -/
def originReference (facts : BuildFacts) (own : OrderedMap ModuleId ExportMap)
    (names : NamespaceNames) : Resolution → NamespaceNames × Option Reference
  | .origin site =>
    match own.find? site.module with
    | some map => (names, map.find? site.name)
    | none =>
      let (after, name) := names.outsideName facts site.module
      (after, some (.expression (name ++ Quoted.property (outsideAccessName facts site))))
  | .namespaceOf module =>
    if own.contains module then
      let (after, name) := names.insideName facts module
      (after, some (.identifier name))
    else
      let (after, name) := names.outsideName facts module
      (after, some (.identifier name))
  | .missing _ => (names, none)
  | .undetermined _ => (names, none)
  | .circular _ => (names, none)

/-- What an export of a member stands for. -/
def exportReference (facts : BuildFacts) (own : OrderedMap ModuleId ExportMap)
    (module : ModuleId) (names : NamespaceNames) (e : Export) :
    NamespaceNames × Option Reference :=
  if e.isForwarding then
    originReference facts own names (facts.registry.resolve ⟨module, e.name⟩)
  else (names, (own.find? module).bind fun map => map.find? e.name)

/-- The export map of a list of exports of a member. -/
def mapExports (facts : BuildFacts) (own : OrderedMap ModuleId ExportMap) (module : ModuleId) :
    NamespaceNames → ExportMap → List Export → NamespaceNames × ExportMap
  | names, map, [] => (names, map)
  | names, map, e :: rest =>
    match exportReference facts own module names e with
    | (after, some reference) =>
      mapExports facts own module after (map.insert e.name reference) rest
    | (after, none) => mapExports facts own module after map rest

/-- The third round: the members with their export maps. -/
def mapMembers (facts : BuildFacts) (own : OrderedMap ModuleId ExportMap) :
    NamespaceNames → List Member → NamespaceNames × List Member
  | names, [] => (names, [])
  | names, member :: rest =>
    let (after, exportMap) :=
      mapExports facts own member.module names ∅ (linkable facts member.module)
    let (last, members) := mapMembers facts own after rest
    (last, { member with exportMap } :: members)

end Naming

/-- The members of a merged scope before any extension has seen them. -/
structure NamedMembers where
  scope : Scope
  members : List Member
  outside : OrderedMap ModuleId String
deriving DecidableEq, Repr

namespace NamedMembers

/-- Hand out the names of a merged scope for distinct members. -/
def ofModules (facts : BuildFacts) (modules : UniqueList ModuleId) : NamedMembers :=
  let (entered, members) :=
    Naming.enterMembers facts 0 (Scope.ofNames [exportsObject]) modules.toList
  let (bound, own) := Naming.bindMembers facts entered members
  let (names, mapped) := Naming.mapMembers facts (OrderedMap.ofList own) ⟨bound, ∅, ∅⟩ members
  { scope := names.scope
    members := mapped.map fun member =>
      { member with namespaceName := names.inside.find? member.module }
    outside := names.outside }

end NamedMembers

end ModuleLinker
