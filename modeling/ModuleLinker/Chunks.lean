import ModuleLinker.Collections.OrderedMap
import ModuleLinker.Collections.UniqueList
import ModuleLinker.Modules.Basic

/-!
# Chunks

The output of a build is split into chunks of modules.  A chunk may have its own
runtime support code, and some of its modules are entries.
-/

namespace ModuleLinker

/-- A part of the output with the modules in it. -/
structure Chunk where
  id : ChunkId
  name : Option String
  hasRuntime : Bool
  entries : UniqueList ModuleId
  modules : UniqueList ModuleId
deriving DecidableEq, Repr

namespace Chunk

/-- Put a module into a chunk as an entry. -/
def addEntry (chunk : Chunk) (module : ModuleId) : Chunk :=
  { chunk with entries := chunk.entries.insert module, modules := chunk.modules.insert module }

/-- A chunk of the given modules and, after them, the given entries. -/
def ofModules (id : ChunkId) (name : Option String) (hasRuntime : Bool)
    (modules entries : List ModuleId) : Chunk :=
  entries.foldl addEntry ⟨id, name, hasRuntime, ∅, UniqueList.ofList modules⟩

end Chunk

/-- The chunks of a build in the order of their addition. -/
structure ChunkTable where
  chunks : OrderedMap ChunkId Chunk
deriving DecidableEq, Repr

namespace ChunkTable

instance : EmptyCollection ChunkTable := ⟨⟨∅⟩⟩

instance : Inhabited ChunkTable := ⟨∅⟩

/-- Add a chunk, or replace the one with the same number where it stands. -/
def add (table : ChunkTable) (chunk : Chunk) : ChunkTable :=
  ⟨table.chunks.insert chunk.id chunk⟩

/-- The chunk with a number. -/
def chunk? (table : ChunkTable) (id : ChunkId) : Option Chunk := table.chunks.find? id

/-- The chunks that hold a module. -/
def containing (table : ChunkTable) (module : ModuleId) : List Chunk :=
  table.chunks.values.filter fun chunk => chunk.modules.contains module

/-- The number of entries of a chunk; an unknown chunk has none. -/
def entryCount (table : ChunkTable) (id : ChunkId) : Nat :=
  match table.chunk? id with
  | some chunk => chunk.entries.size
  | none => 0

end ChunkTable

end ModuleLinker
