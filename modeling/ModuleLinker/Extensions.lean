import ModuleLinker.Chunks
import ModuleLinker.Code
import ModuleLinker.Concatenation.Member
import ModuleLinker.Configuration
import ModuleLinker.Exports.Registry
import ModuleLinker.Imports.Graph
import ModuleLinker.Journal

/-!
# Extension points

Linking can be adjusted at three points.  A map tap may change what the exports
of a member stand for, a definitions tap says whether the definitions of a module
can be inlined, and a bailout tap gives reasons against that.  The taps of one
point run in the order of their registration.  What a tap can see is part of its
type: a map tap sees its member, and the taps of the other two points see the
facts of the build, to which the list of registered taps does not belong.
-/

namespace ModuleLinker

/-- Everything that is known of a build before it is linked. -/
structure BuildFacts where
  registry : ExportRegistry
  importGraph : ImportGraph
  chunks : ChunkTable
  code : CodeTable
  configuration : Configuration

namespace BuildFacts

/-- The runtime for which the build is linked. -/
def runtime (facts : BuildFacts) : Runtime := facts.configuration.runtime

/-- The facts about the code of a module in the runtime of the build. -/
def codeOf (facts : BuildFacts) (module : ModuleId) : ModuleCode :=
  facts.code.get module facts.runtime

end BuildFacts

/-- What a map tap makes of an export map: leave it, or replace it by a map with
the same names. -/
inductive MapAnswer
  | keep
  | replace (map : ExportMap)
deriving DecidableEq, Repr

/-- A map tap sees a member and its current export map.  It hands back the
member, which it may change as it likes, and its answer or a reason to fail. -/
structure MapTap where
  name : String
  run : ModuleId → ExportMap → Member → Journaled (Member × Except String MapAnswer)

/-- A bailout tap may give a reason against inlining a module.  It judges by the facts of the
build.  It is not shown which taps are registered and cannot run any of them, so a tap whose
reason depends on them is left out here. -/
structure BailoutTap where
  name : String
  reason : ModuleId → BuildFacts → Journaled (Option String)

/-- A definitions tap may say whether the definitions of a module can be inlined.  It judges by
the definitions, by the facts of the build and by what the bailout taps say when it asks them.
It is not shown the map taps and the other definitions taps: a tap whose answer depends on
which of them are registered, or that runs them itself, is left out here. -/
structure DefinitionsTap where
  name : String
  verdict : ExportMap → ModuleId → BuildFacts → List BailoutTap → Journaled (Option Bool)

/-- The registered taps of each point. -/
structure Extensions where
  mapTaps : List MapTap
  definitionsTaps : List DefinitionsTap
  bailoutTaps : List BailoutTap

instance : EmptyCollection Extensions := ⟨⟨[], [], []⟩⟩

instance : Inhabited Extensions := ⟨∅⟩

/-- An export map after all map taps, and whether any of them replaced it. -/
structure Rewritten where
  map : ExportMap
  changed : Bool
deriving DecidableEq, Repr

namespace MapTap

/-- The names of the second map that the first one lacks, in the order of the
second. -/
def missingIn (first second : ExportMap) : List String :=
  second.keys.filter fun name => !first.contains name

/-- Run map taps one after the other on a member and its export map.  The run
ends at the first tap that fails or answers with other names; the member is
handed back as the taps left it in either case. -/
def runAll (module : ModuleId) : List MapTap → Rewritten → Member →
    Journaled (Member × Except LinkError Rewritten)
  | [], current, member => pure (member, .ok current)
  | tap :: rest, current, member => do
    let (after, answer) ← tap.run module current.map member
    match answer with
    | .error reason => pure (after, .error (.extensionFailed reason))
    | .ok .keep => runAll module rest current after
    | .ok (.replace map) =>
      let added := missingIn current.map map
      let removed := missingIn map current.map
      if added.isEmpty && removed.isEmpty then runAll module rest ⟨map, true⟩ after
      else pure (after, .error (.namesChanged tap.name module added removed))

end MapTap

namespace BailoutTap

/-- The first reason that a tap gives; the taps after it are not asked. -/
def firstReason (module : ModuleId) (facts : BuildFacts) :
    List BailoutTap → Journaled (Option String)
  | [] => pure none
  | tap :: rest => do
    match ← tap.reason module facts with
    | some reason => pure (some reason)
    | none => firstReason module facts rest

end BailoutTap

namespace DefinitionsTap

/-- The first definite answer of a tap; the taps after it are not asked. -/
def firstVerdict (definitions : ExportMap) (module : ModuleId) (facts : BuildFacts)
    (bailoutTaps : List BailoutTap) : List DefinitionsTap → Journaled (Option Bool)
  | [] => pure none
  | tap :: rest => do
    match ← tap.verdict definitions module facts bailoutTaps with
    | some verdict => pure (some verdict)
    | none => firstVerdict definitions module facts bailoutTaps rest

end DefinitionsTap

/-- A build: its facts and the registered extensions. -/
structure Build extends BuildFacts where
  extensions : Extensions

namespace Build

/-- A build in which nothing is known yet. -/
def empty (configuration : Configuration) : Build :=
  ⟨⟨∅, ∅, ∅, ∅, configuration⟩, ∅⟩

/-- Register a map tap after the others. -/
def addMapTap (build : Build) (tap : MapTap) : Build :=
  { build with extensions :=
      { build.extensions with mapTaps := build.extensions.mapTaps ++ [tap] } }

/-- Register a definitions tap after the others. -/
def addDefinitionsTap (build : Build) (tap : DefinitionsTap) : Build :=
  { build with extensions :=
      { build.extensions with definitionsTaps := build.extensions.definitionsTaps ++ [tap] } }

/-- Register a bailout tap after the others. -/
def addBailoutTap (build : Build) (tap : BailoutTap) : Build :=
  { build with extensions :=
      { build.extensions with bailoutTaps := build.extensions.bailoutTaps ++ [tap] } }

end Build

end ModuleLinker
