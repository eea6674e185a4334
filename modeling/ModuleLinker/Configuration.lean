import ModuleLinker.Modules.Basic

/-!
# Configuration

The options that have a say in linking and in the text of the interface.
-/

namespace ModuleLinker

/-- The restriction of an interface to one export, given as a name or as a path
of names. -/
inductive Restriction
  | single (name : String)
  | path (names : List String)
deriving DecidableEq, Repr

namespace Restriction

/-- The export that stays visible.  Only the first name of a path counts, and an
empty path restricts nothing. -/
def first? : Restriction → Option String
  | single name => some name
  | path names => names.head?

end Restriction

/-- The options about the library.  A module library must not have a name, since
its exports are the exports of its entry module. -/
structure LibraryOptions where
  name : Option String
  restriction : Option Restriction
deriving DecidableEq, Repr

/-- The options of a build. -/
structure Configuration where
  hasConst : Bool
  runtime : Runtime
  library : LibraryOptions
deriving DecidableEq, Repr

namespace Configuration

/-- The options when nothing is said: `const` is available, the runtime is
called `main`, and the library is the whole interface. -/
def standard : Configuration := ⟨true, "main", ⟨none, none⟩⟩

instance : Inhabited Configuration := ⟨standard⟩

/-- The keyword of generated declarations. -/
def declarationKeyword (configuration : Configuration) : String :=
  if configuration.hasConst then "const" else "var"

end Configuration

end ModuleLinker
