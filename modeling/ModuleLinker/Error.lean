import ModuleLinker.Modules.Basic

/-!
# Reasons why linking fails

An export that leads nowhere is no failure: it is left out of the interface.
What fails is a request that does not fit the registered modules, an option that
a module library cannot honour, and an extension that breaks its contract.  That a
name is taken when it is handed out is a failure of `Scope.request`, which no
request for a name has while linking.
-/

namespace ModuleLinker

/-- The reasons why a request cannot be carried out. -/
inductive LinkError
  /-- The library has a global name, which a module library cannot have. -/
  | libraryNamed (name : String)
  /-- The library is restricted to an export that the module does not have. -/
  | noSuchExport (module : ModuleId) (name : String)
  /-- A module was named that is not registered. -/
  | unregistered (module : ModuleId)
  /-- The root of a concatenation is not one of its members. -/
  | rootOutside (root : ModuleId)
  /-- An extension failed, with a reason of its own. -/
  | extensionFailed (reason : String)
  /-- An extension changed which export names a module has. -/
  | namesChanged (extension : String) (module : ModuleId) (added removed : List String)
deriving DecidableEq, Repr

namespace LinkError

/-- Names in a message, quoted and between brackets. -/
def nameList (names : List String) : String :=
  "[" ++ String.intercalate ", " (names.map fun name => "\"" ++ name ++ "\"") ++ "]"

/-- The text that tells a reason. -/
def message : LinkError → String
  | libraryNamed name =>
    "invalid library option: library name must be unset for module output (got '" ++ name ++
      "'); the exports of the entry module are the library"
  | noSuchExport module name =>
    "module " ++ module.label ++ " has no export named '" ++ name ++ "'"
  | unregistered module => "module " ++ module.label ++ " is not part of the export graph"
  | rootOutside root =>
    "root module " ++ root.label ++ " is not a member of the concatenation"
  | extensionFailed reason => reason
  | namesChanged extension module added removed =>
    "tap '" ++ extension ++ "' changed the export names of module " ++ module.label ++
      " (added: " ++ nameList added ++ ", removed: " ++ nameList removed ++ ")"

end LinkError

end ModuleLinker
