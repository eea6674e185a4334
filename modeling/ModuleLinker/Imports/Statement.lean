import ModuleLinker.Text.Quoted

/-!
# Import statements

Generated code may rely on modules that are not linked.  Their import statements
stand in front of it.
-/

namespace ModuleLinker

/-- One entry of an import list: a name that the other module exports and the
binding that receives it. -/
structure ImportSpecifier where
  imported : String
  binding : String
deriving DecidableEq, Repr

namespace ImportSpecifier

/-- The entry in generated code.  One word serves for both names when they are
equal. -/
def source (specifier : ImportSpecifier) : String :=
  if specifier.imported = specifier.binding then specifier.binding
  else Quoted.specifier specifier.imported ++ " as " ++ specifier.binding

end ImportSpecifier

/-- The import of some exports of another module, or of the module for its
effects alone when the list is empty. -/
structure ImportStatement where
  request : String
  specifiers : List ImportSpecifier
deriving DecidableEq, Repr

namespace ImportStatement

/-- The bindings that the statement introduces, in order. -/
def bindings (statement : ImportStatement) : List String :=
  statement.specifiers.map ImportSpecifier.binding

/-- The statement in generated code, on a line of its own. -/
def source (statement : ImportStatement) : String :=
  let request := Quoted.literal statement.request
  if statement.specifiers.isEmpty then "import " ++ request ++ ";\n"
  else
    "import \x7b " ++
      String.intercalate ", " (statement.specifiers.map ImportSpecifier.source) ++
      " \x7d from " ++ request ++ ";\n"

end ImportStatement

end ModuleLinker
