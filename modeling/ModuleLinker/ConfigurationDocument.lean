import ModuleLinker.Configuration
import ModuleLinker.Record
import ModuleLinker.Toml.Parser

/-!
# Configurations as documents

A configuration document has the tables `output` and `library`.  Everything in
it can be left out, and nothing else may stand in it.
-/

namespace ModuleLinker

namespace Configuration

/-- Whether constant declarations are available, from the table of the output
environment. -/
def hasConstOf? : Reader Bool := fun strictness document => do
  let fields ← Fields.closed? ["const"] strictness document
  fields.withDefault "const" Reader.boolean standard.hasConst

/-- The environment and the runtime of the output. -/
def outputOf? : Reader (Bool × Runtime) := fun strictness document => do
  let fields ← Fields.closed? ["environment", "runtime"] strictness document
  let hasConst ← fields.withDefault "environment" hasConstOf? standard.hasConst
  let runtime ← fields.withDefault "runtime" Reader.text standard.runtime
  some (hasConst, runtime)

/-- A restriction to one export: a name or a list of names. -/
def restrictionOf? : Reader Restriction
  | _, .text name => some (.single name)
  | strictness, .list items => (items.mapM (Reader.text strictness)).map Restriction.path
  | _, _ => none

/-- The options about the library. -/
def libraryOf? : Reader LibraryOptions := fun strictness document => do
  let fields ← Fields.closed? ["name", "export"] strictness document
  let name ← fields.optionalAnywhere "name" Reader.text
  let restriction ← fields.optionalAnywhere "export" restrictionOf?
  some ⟨name, restriction⟩

/-- The configuration that a document describes. -/
def ofDocument? : Reader Configuration := fun strictness document => do
  let fields ← Fields.closed? ["output", "library"] strictness document
  let (hasConst, runtime) ←
    fields.withDefault "output" outputOf? (standard.hasConst, standard.runtime)
  let library ← fields.withDefault "library" libraryOf? standard.library
  some { hasConst, runtime, library }

/-- The configuration that a TOML text describes. -/
def ofToml? (text : String) : Option Configuration :=
  (Toml.parse? text).bind (ofDocument? .lenient)

end Configuration

end ModuleLinker
