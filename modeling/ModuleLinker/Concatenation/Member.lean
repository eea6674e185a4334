import ModuleLinker.Imports.Statement
import ModuleLinker.Modules.Basic
import ModuleLinker.Reference

/-!
# Members of a concatenation

Modules that are merged into one scope are the members of a concatenation.  Each
member has names in the merged scope for what its code binds, and a map of what
its exports stand for there.
-/

namespace ModuleLinker

/-- One module in a merged scope.  `localNames` gives the new name of everything
that its code binds at the top level; the namespace object has a name only if
some export needs it. -/
structure Member where
  module : ModuleId
  index : Nat
  exportMap : ExportMap
  localNames : OrderedMap String String
  namespaceName : Option String
  imports : List ImportStatement
deriving DecidableEq, Repr

end ModuleLinker
