import ModuleLinker.Concatenation.Naming

/-!
# Concatenations

A concatenation is a list of modules merged into one scope around a root.  Its
names are handed out first; then the map taps see each member in turn and may
change what its exports stand for.  After that it is only read.
-/

namespace ModuleLinker

/-- Modules merged into one scope.  `outside` names the namespaces of modules
that are referred to and not merged, and `rewritten` tells whether a map tap
replaced any export map. -/
structure Concatenation where
  root : ModuleId
  runtime : Runtime
  members : OrderedMap ModuleId Member
  scope : Scope
  outside : OrderedMap ModuleId String
  rewritten : Bool
deriving DecidableEq, Repr

namespace Concatenation

/-- The modules, in order. -/
def modules (unit : Concatenation) : List ModuleId := unit.members.keys

/-- The export map of a member. -/
def exportMap? (unit : Concatenation) (module : ModuleId) : Option ExportMap :=
  (unit.members.find? module).map Member.exportMap

/-- Run the map taps on every member of a list, up to the first failure.  The
answer tells whether any export map was replaced. -/
def tapMembers (taps : List MapTap) :
    List Member → Journaled (Except LinkError (List (ModuleId × Member) × Bool))
  | [] => pure (.ok ([], false))
  | member :: rest => do
    let (after, outcome) ← MapTap.runAll member.module taps ⟨member.exportMap, false⟩ member
    match outcome with
    | .error reason => pure (.error reason)
    | .ok rewritten => do
      match ← tapMembers taps rest with
      | .error reason => pure (.error reason)
      | .ok (members, changed) =>
        let done := { after with exportMap := rewritten.map }
        pure (.ok ((member.module, done) :: members, rewritten.changed || changed))

/-- The first module of a list that is not registered. -/
def firstUnregistered? (registry : ExportRegistry) (modules : List ModuleId) :
    Option ModuleId :=
  modules.find? fun module => !registry.isRegistered module

/-- Merge modules around a root, which has to be one of them.  Repetitions in the
list count once. -/
def build (build : Build) (root : ModuleId) (modules : List ModuleId) :
    Journaled (Except LinkError Concatenation) :=
  let distinct := UniqueList.ofList modules
  if !distinct.contains root then pure (.error (.rootOutside root))
  else
    match firstUnregistered? build.registry distinct.toList with
    | some module => pure (.error (.unregistered module))
    | none => do
      let named := NamedMembers.ofModules build.toBuildFacts distinct
      match ← tapMembers build.extensions.mapTaps named.members with
      | .error reason => pure (.error reason)
      | .ok (members, rewritten) =>
        pure (.ok {
          root
          runtime := build.runtime
          members := OrderedMap.ofList members
          scope := named.scope
          outside := named.outside
          rewritten })

/-- What the used export names of the root stand for.  Of two exports with one
used name the later one counts. -/
def definitions (unit : Concatenation) (registry : ExportRegistry) : ExportMap :=
  match unit.exportMap? unit.root with
  | none => ∅
  | some map =>
    OrderedMap.ofList (map.entries.map fun entry =>
      let access := (registry.export? ⟨unit.root, entry.1⟩).bind fun e =>
        e.accessName unit.runtime
      (access.getD entry.1, entry.2))

end Concatenation

end ModuleLinker
