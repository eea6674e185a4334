import ModuleLinker.Concatenation.Naming
import ModuleLinker.Text.Quoted

/-!
# Interface statements

The interface of a module is a sequence of statements that export its bindings:
declarations of aliases, one list of exports that are bindings already, and
single exports of other expressions.
-/

namespace ModuleLinker

/-- The declaration of a binding for something that has none. -/
structure AliasDeclaration where
  name : String
  init : String
deriving DecidableEq, Repr

/-- An entry of the export list: a binding and the name under which it is
exported. -/
structure ListedExport where
  binding : String
  exported : String
deriving DecidableEq, Repr

namespace ListedExport

/-- The entry in generated code.  One word serves for both names when they are
equal. -/
def source (listed : ListedExport) : String :=
  if listed.binding = listed.exported && Identifier.isIdentifier listed.exported then
    listed.binding
  else listed.binding ++ " as " ++ Quoted.specifier listed.exported

end ListedExport

/-- An export that declares its own binding. -/
structure DeclaredExport where
  exported : String
  expression : String
deriving DecidableEq, Repr

/-- The interface of a module.  `exports` lists every export in it with what it
stands for. -/
structure Interface where
  module : ModuleId
  isAsynchronous : Bool
  keyword : String
  exports : List (String × Reference)
  aliases : List AliasDeclaration
  listed : List ListedExport
  declared : List DeclaredExport
  wrapperOmittable : Bool
deriving DecidableEq, Repr

namespace Interface

/-- The line that waits for the exports object of an asynchronous module. -/
def awaitSource : String := exportsObject ++ " = await " ++ exportsObject ++ ";\n"

/-- The declaration of an alias on a line of its own. -/
def aliasSource (keyword : String) (declaration : AliasDeclaration) : String :=
  keyword ++ " " ++ declaration.name ++ " = " ++ declaration.init ++ ";\n"

/-- The export list on a line of its own. -/
def listSource (listed : List ListedExport) : String :=
  "export \x7b " ++ String.intercalate ", " (listed.map ListedExport.source) ++ " \x7d;\n"

/-- The export of an expression on a line of its own. -/
def declaredSource (keyword : String) (declared : DeclaredExport) : String :=
  "export " ++ keyword ++ " " ++ declared.exported ++ " = " ++ declared.expression ++ ";\n"

/-- The interface in generated code. -/
def source (interface : Interface) : String :=
  (if interface.isAsynchronous then awaitSource else "") ++
    String.join (interface.aliases.map (aliasSource interface.keyword)) ++
    (if interface.listed.isEmpty then "" else listSource interface.listed) ++
    String.join (interface.declared.map (declaredSource interface.keyword))

end Interface

end ModuleLinker
