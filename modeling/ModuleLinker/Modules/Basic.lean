/-!
# Modules and runtimes

Modules and chunks are known by 32-bit numbers.  In texts a module is written
with the letter `m` in front of its number.
-/

namespace ModuleLinker

/-- The number by which a module is known. -/
structure ModuleId where
  number : UInt32
deriving DecidableEq, Repr, Inhabited

namespace ModuleId

/-- A module in texts, such as `m7`. -/
def label (module : ModuleId) : String := "m" ++ toString module.number.toNat

end ModuleId

/-- The number by which a chunk is known. -/
structure ChunkId where
  number : UInt32
deriving DecidableEq, Repr, Inhabited

/-- The name of an evaluation context, which decides what is used and under
which names. -/
abbrev Runtime : Type := String

end ModuleLinker
