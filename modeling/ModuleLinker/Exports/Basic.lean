import ModuleLinker.Collections.OrderedMap
import ModuleLinker.Exports.Literal
import ModuleLinker.Modules.Basic

/-!
# Exports

What is known of one export of a module: whether it exists, how each runtime
uses it, whether it forwards to another module, and its value when it is a
constant.
-/

namespace ModuleLinker

/-- Whether an export is known to exist.  `unknown` stands for exports that
could not be enumerated, as behind a dynamic star export. -/
inductive Provision
  | provided
  | notProvided
  | unknown
deriving DecidableEq, Repr, Inhabited

/-- How a runtime uses an export.  A renamed export is accessed under another
property name; `wholeNamespace` means that the entire exports object is used. -/
inductive Usage
  | unused
  | used
  | renamed (name : String)
  | wholeNamespace
deriving DecidableEq, Repr

/-- Where a re-export leads: to one export of a module, or to the namespace of
the module when no name is given. -/
structure Forward where
  module : ModuleId
  name : Option String
deriving DecidableEq, Repr

/-- One declared or inferred export of a module. -/
structure Export where
  name : String
  provision : Provision
  usage : OrderedMap Runtime Usage
  forward : Option Forward
  constant : Option Literal

namespace Export

/-- Whether the export forwards to another module's export or namespace. -/
def isForwarding (e : Export) : Bool := e.forward.isSome

/-- How a runtime uses the export; a runtime that is not listed uses it under
its own name. -/
def usageIn (e : Export) (runtime : Runtime) : Usage := (e.usage.find? runtime).getD .used

/-- The name under which a runtime accesses the export, if it uses it. -/
def accessName (e : Export) (runtime : Runtime) : Option String :=
  match e.usageIn runtime with
  | .unused => none
  | .used => some e.name
  | .wholeNamespace => some e.name
  | .renamed name => some name

end Export

/-- A pair of a module and the name of an export, whether or not there is such
an export. -/
structure ExportSite where
  module : ModuleId
  name : String
deriving DecidableEq, Repr

namespace ExportSite

/-- A site in texts, such as `m7:value`. -/
def label (site : ExportSite) : String := site.module.label ++ ":" ++ site.name

end ExportSite

namespace Forward

/-- The site to which a forward leads, unless it leads to a namespace. -/
def site? (forward : Forward) : Option ExportSite :=
  forward.name.map fun name => ⟨forward.module, name⟩

end Forward

namespace Export

/-- The site to which an export forwards, if it forwards to a named export. -/
def forwardSite? (e : Export) : Option ExportSite := e.forward.bind Forward.site?

end Export

end ModuleLinker
