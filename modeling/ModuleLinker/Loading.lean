import ModuleLinker.ConfigurationDocument
import ModuleLinker.Manifest

/-!
# Loading and linking from texts

A build is linked from the text of a manifest and, if one is given, the text of
a configuration.  The texts stand alone or come from files; the names of the
files then appear in the reasons for failure.
-/

namespace ModuleLinker

/-- Why a file cannot be read. -/
inductive ReadFailure
  | notFound
  | isDirectory
  | notDirectory
  | nameTooLong
  | other (reason : String)
deriving DecidableEq, Repr

namespace ReadFailure

/-- The text that tells why a file cannot be read. -/
def message : ReadFailure → String
  | notFound => "No such file or directory (os error 2)"
  | isDirectory => "Is a directory (os error 21)"
  | notDirectory => "Not a directory (os error 20)"
  | nameTooLong => "File name too long (os error 36)"
  | other reason => reason

end ReadFailure

/-- The two kinds of text that are read. -/
inductive SourceKind
  | configuration
  | manifest
deriving DecidableEq, Repr

namespace SourceKind

/-- The failure to read a file of a kind. -/
def unreadable (kind : SourceKind) (path : String) : String :=
  match kind with
  | configuration => "Failed to read config file " ++ path
  | manifest => "Failed to read manifest " ++ path

/-- The failure to understand a file of a kind. -/
def invalid (kind : SourceKind) (path : String) : String :=
  match kind with
  | configuration => "Invalid config file " ++ path
  | manifest => "Invalid manifest " ++ path

/-- The failure to understand a text of a kind. -/
def malformed (kind : SourceKind) : String :=
  match kind with
  | configuration => "Failed to parse link configuration"
  | manifest => "Failed to parse link manifest"

end SourceKind

/-- Reasons why nothing is linked.  A malformed text has a path if it comes from
a file. -/
inductive LoadError
  | unreadable (kind : SourceKind) (path : String) (failure : ReadFailure)
  | malformed (kind : SourceKind) (path : Option String)
  | linking (reason : LinkError)
deriving DecidableEq, Repr

namespace LoadError

/-- The text that tells a reason, from the outermost cause to the innermost
one. -/
def message : LoadError → String
  | unreadable kind path failure => kind.unreadable path ++ ": " ++ failure.message
  | malformed kind (some path) => kind.invalid path ++ ": " ++ kind.malformed
  | malformed kind none => kind.malformed
  | linking reason => reason.message

end LoadError

namespace Loading

/-- The configuration that a text describes; no text means the standard one. -/
def configuration? (path : Option String) : Option String → Except LoadError Configuration
  | none => .ok Configuration.standard
  | some text =>
    match Configuration.ofToml? text with
    | some configuration => .ok configuration
    | none => .error (.malformed .configuration path)

/-- The manifest that a text describes. -/
def manifest? (path : Option String) (text : String) : Except LoadError Manifest :=
  match Manifest.ofToml? text with
  | some manifest => .ok manifest
  | none => .error (.malformed .manifest path)

/-- A configuration for another runtime, if one is named. -/
def withRuntime (configuration : Configuration) : Option Runtime → Configuration
  | some runtime => { configuration with runtime }
  | none => configuration

/-- The text of a file, which tells the kind of the file when it cannot be
read. -/
def contents (read : String → Except ReadFailure String) (kind : SourceKind) (path : String) :
    Except LoadError String :=
  match read path with
  | .ok text => .ok text
  | .error failure => .error (.unreadable kind path failure)

end Loading

/-- A library that was linked, or the reason why there is none, with the journal
in either case. -/
structure LoadOutcome where
  journal : List JournalEntry
  result : Except LoadError LinkedLibrary

namespace LoadOutcome

/-- The outcome when nothing was linked at all. -/
def failed (reason : LoadError) : LoadOutcome := ⟨[], .error reason⟩

/-- The outcome of linking. -/
def ofLink (outcome : LinkOutcome) : LoadOutcome :=
  ⟨outcome.journal, outcome.result.mapError LoadError.linking⟩

end LoadOutcome

namespace Loading

/-- Link a manifest with a configuration, the configuration being read first. -/
def link (configuration : Except LoadError Configuration) (runtime : Option Runtime)
    (manifest : Except LoadError Manifest) : LoadOutcome :=
  match configuration with
  | .error reason => .failed reason
  | .ok configuration =>
    match manifest with
    | .error reason => .failed reason
    | .ok manifest => .ofLink (manifest.link (withRuntime configuration runtime))

/-- Link from texts.  Paths are given when the texts come from files. -/
def linkTexts (configurationPath manifestPath : Option String) (configuration : Option String)
    (runtime : Option Runtime) (manifest : String) : LoadOutcome :=
  link (configuration? configurationPath configuration) runtime (manifest? manifestPath manifest)

/-- Link from files. -/
def linkFiles (read : String → Except ReadFailure String) (configurationPath : Option String)
    (runtime : Option Runtime) (manifestPath : String) : LoadOutcome :=
  let configuration : Except LoadError Configuration :=
    match configurationPath with
    | none => configuration? none none
    | some path => (contents read .configuration path).bind fun text =>
        configuration? (some path) (some text)
  let manifest : Except LoadError Manifest :=
    (contents read .manifest manifestPath).bind (manifest? (some manifestPath))
  link configuration runtime manifest

end Loading

end ModuleLinker
