import ModuleLinker.Extensions

/-!
# Scope wrappers

The wrapper around a module's scope can be omitted when nothing but its own
chunk's start depends on the module.
-/

namespace ModuleLinker

namespace Wrapper

/-- Whether a chunk can do without the wrapper of a module in it: it has its own
runtime and at most one entry. -/
def chunkAllows (chunks : ChunkTable) (chunk : Chunk) : Bool :=
  chunk.hasRuntime && chunks.entryCount chunk.id ≤ 1

/-- Whether the facts of a build allow to omit the wrapper of a module: nothing
imports it, and every chunk that holds it can do without. -/
def factsAllow (facts : BuildFacts) (module : ModuleId) : Bool :=
  !facts.importGraph.isImported module &&
    (facts.chunks.containing module).all (chunkAllows facts.chunks)

/-- Whether the wrapper of a module can be omitted: no bailout tap has a reason
against it, and the facts allow it. -/
def canOmit (module : ModuleId) (facts : BuildFacts) (bailoutTaps : List BailoutTap) :
    Journaled Bool := do
  match ← BailoutTap.firstReason module facts bailoutTaps with
  | some _ => pure false
  | none => pure (factsAllow facts module)

/-- The decision about wrappers as a definitions tap, which always has an
answer. -/
def tap : DefinitionsTap where
  name := "wrapper"
  verdict _ module facts bailoutTaps := do
    pure (some (← canOmit module facts bailoutTaps))

end Wrapper

end ModuleLinker
