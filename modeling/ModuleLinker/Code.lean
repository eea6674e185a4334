import ModuleLinker.Collections.UniqueList
import ModuleLinker.Imports.Statement
import ModuleLinker.Modules.Basic
import ModuleLinker.Reference

/-!
# Facts about generated code

The code of single modules is generated before linking.  Linking needs only a
few facts about it, which may differ from runtime to runtime.
-/

namespace ModuleLinker

/-- What linking needs to know of the code of one module for one runtime.
`backing` gives the declaration behind an export where their names differ, and
`definitions` what the used export names stand for once the module has been
merged into a scope. -/
structure ModuleCode where
  declarations : UniqueList String
  backing : OrderedMap String String
  definitions : Option ExportMap
  imports : List ImportStatement
deriving DecidableEq, Repr

namespace ModuleCode

instance : EmptyCollection ModuleCode := ⟨⟨∅, ∅, none, []⟩⟩

instance : Inhabited ModuleCode := ⟨∅⟩

/-- The bindings of all import statements, in order and with repetitions. -/
def importBindings (code : ModuleCode) : List String :=
  code.imports.flatMap ImportStatement.bindings

/-- The names that the code binds at its top level: first the declarations and
then the import bindings. -/
def topLevelNames (code : ModuleCode) : List String :=
  code.declarations.toList ++ code.importBindings

/-- The declaration behind an export, which has the same name unless the code
says otherwise. -/
def backingOf (code : ModuleCode) (exportName : String) : String :=
  (code.backing.find? exportName).getD exportName

end ModuleCode

/-- The facts about the code of every module in every runtime. -/
structure CodeTable where
  facts : OrderedMap (ModuleId × Runtime) ModuleCode
deriving DecidableEq, Repr

namespace CodeTable

instance : EmptyCollection CodeTable := ⟨⟨∅⟩⟩

instance : Inhabited CodeTable := ⟨∅⟩

/-- The facts about a module in a runtime, if there is an entry for them. -/
def find? (table : CodeTable) (module : ModuleId) (runtime : Runtime) : Option ModuleCode :=
  table.facts.find? (module, runtime)

/-- The facts about a module in a runtime; no entry counts as the empty one. -/
def get (table : CodeTable) (module : ModuleId) (runtime : Runtime) : ModuleCode :=
  (table.find? module runtime).getD ∅

/-- Change the facts about a module in a runtime; a missing entry is made
first. -/
def edit (table : CodeTable) (module : ModuleId) (runtime : Runtime)
    (change : ModuleCode → ModuleCode) : CodeTable :=
  ⟨table.facts.update (module, runtime) change⟩

theorem find?_edit (table : CodeTable) (module other : ModuleId) (runtime otherRuntime : Runtime)
    (change : ModuleCode → ModuleCode) :
    (table.edit module runtime change).find? other otherRuntime =
      if (module, runtime) = (other, otherRuntime) then some (change (table.get module runtime))
      else table.find? other otherRuntime :=
  OrderedMap.find?_update table.facts (module, runtime) (other, otherRuntime) change

end CodeTable

end ModuleLinker
