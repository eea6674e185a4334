import ModuleLinker.Collections.UniqueList
import ModuleLinker.Modules.Basic

/-!
# The import graph

Which modules import which, and which modules evaluate asynchronously.  Linking
only reads this graph.
-/

namespace ModuleLinker

/-- The modules in the order of their first appearance, the imports between
them, and the modules that evaluate asynchronously. -/
structure ImportGraph where
  modules : UniqueList ModuleId
  imports : UniqueList (ModuleId × ModuleId)
  asynchronous : UniqueList ModuleId
deriving DecidableEq, Repr

namespace ImportGraph

instance : EmptyCollection ImportGraph := ⟨⟨∅, ∅, ∅⟩⟩

instance : Inhabited ImportGraph := ⟨∅⟩

/-- Make a module known to the graph. -/
def add (g : ImportGraph) (module : ModuleId) : ImportGraph :=
  { g with modules := g.modules.insert module }

/-- The place of a module in the order of first appearance. -/
def number? (g : ImportGraph) (module : ModuleId) : Option Nat :=
  g.modules.toList.findIdx? fun other => decide (other = module)

/-- Record that a module imports another one; the importer becomes known
first. -/
def addImport (g : ImportGraph) (importer imported : ModuleId) : ImportGraph :=
  let known := (g.add importer).add imported
  { known with imports := known.imports.insert (importer, imported) }

/-- Record that a module evaluates asynchronously. -/
def setAsynchronous (g : ImportGraph) (module : ModuleId) : ImportGraph :=
  let known := g.add module
  { known with asynchronous := known.asynchronous.insert module }

/-- Whether a module evaluates asynchronously. -/
def isAsynchronous (g : ImportGraph) (module : ModuleId) : Bool :=
  g.asynchronous.contains module

/-- The modules that import a module directly, by number.  A module that imports
itself is among them. -/
def importers (g : ImportGraph) (module : ModuleId) : List ModuleId :=
  let origins := (g.imports.toList.filter fun link => decide (link.2 = module)).map Prod.fst
  origins.mergeSort fun first second => first.number.toNat ≤ second.number.toNat

/-- Whether any module imports a module directly. -/
def isImported (g : ImportGraph) (module : ModuleId) : Bool :=
  g.imports.toList.any fun link => decide (link.2 = module)

end ImportGraph

end ModuleLinker
