import ModuleLinker.Loading
import ModuleLinker.Log

/-!
# The command line

The program is called with the command `link` and the path of a manifest.  It
prints the code of the linked library, and tells on a log what went on.  Options
follow the usual conventions: long ones begin with two dashes and take a value
behind an equals sign or as the next word, short ones can be combined, and all
words behind `--` are no options.
-/

namespace ModuleLinker

/-- The options of the command `link`. -/
structure LinkOptions where
  manifest : Option String
  configuration : Option String
  runtime : Option Runtime
  showsFingerprint : Bool
  verbosity : Nat
deriving DecidableEq, Repr

/-- What there is help about: the program, or one of its commands. -/
inductive HelpTopic
  | program
  | linkCommand
  | helpCommand
deriving DecidableEq, Repr

/-- What a command line asks for. -/
inductive Request
  | version
  | help (topic : HelpTopic)
  | link (manifest : String) (options : LinkOptions)
deriving DecidableEq, Repr

namespace LinkOptions

/-- The options when none is given. -/
def initial : LinkOptions := ⟨none, none, none, false, 0⟩

/-- Name the manifest, once and with a path that is not empty. -/
def setManifest (options : LinkOptions) (path : String) : Option LinkOptions :=
  if options.manifest.isSome || path.isEmpty then none
  else some { options with manifest := some path }

/-- Name the configuration, once and with a path that is not empty. -/
def setConfiguration (options : LinkOptions) (path : String) : Option LinkOptions :=
  if options.configuration.isSome || path.isEmpty then none
  else some { options with configuration := some path }

/-- Name the runtime, once. -/
def setRuntime (options : LinkOptions) (runtime : String) : Option LinkOptions :=
  if options.runtime.isSome then none else some { options with runtime := some runtime }

/-- Ask for the fingerprint, once. -/
def setFingerprint (options : LinkOptions) : Option LinkOptions :=
  if options.showsFingerprint then none
  else some { options with showsFingerprint := true }

/-- Ask for more to be told. -/
def addVerbosity (options : LinkOptions) : LinkOptions :=
  { options with verbosity := options.verbosity + 1 }

end LinkOptions

namespace CommandLine

/-- What a word is, as far as its dashes tell. -/
inductive Word
  | endOfOptions
  | long (name : String) (value : Option String)
  | short (letters : List Char)
  | plain (text : String)
deriving DecidableEq, Repr

/-- Look at the dashes of a word.  A single dash is a plain word. -/
def classify (word : String) : Word :=
  match word.toList with
  | ['-', '-'] => .endOfOptions
  | '-' :: '-' :: rest =>
    let name := String.ofList (rest.takeWhile (· != '='))
    match rest.dropWhile (· != '=') with
    | [] => .long name none
    | _ :: value => .long name (some (String.ofList value))
  | '-' :: c :: rest => .short (c :: rest)
  | _ => .plain word

/-- What an option does to the options read so far. -/
inductive Effect
  | done (options : LinkOptions)
  | needsValue (set : LinkOptions → String → Option LinkOptions) (options : LinkOptions)
  | help
  | fail

/-- The effect of an option with a value that may stand in the same word. -/
def valueEffect (set : LinkOptions → String → Option LinkOptions) (options : LinkOptions) :
    Option String → Effect
  | none => .needsValue set options
  | some value =>
    match set options value with
    | some changed => .done changed
    | none => .fail

/-- The effect of a long option of the command `link`. -/
def longEffect (options : LinkOptions) (name : String) (value : Option String) : Effect :=
  if name = "config" then valueEffect LinkOptions.setConfiguration options value
  else if name = "runtime" then valueEffect LinkOptions.setRuntime options value
  else if value.isSome then .fail
  else if name = "hash" then
    match options.setFingerprint with
    | some changed => .done changed
    | none => .fail
  else if name = "verbose" then .done options.addVerbosity
  else if name = "help" then .help
  else .fail

/-- The effect of combined short options of the command `link`.  The one with a
value takes the rest of the word as its value, if there is any. -/
def shortEffect (options : LinkOptions) : List Char → Effect
  | [] => .done options
  | 'v' :: rest => shortEffect options.addVerbosity rest
  | 'h' :: _ => .help
  | 'c' :: [] => .needsValue LinkOptions.setConfiguration options
  | 'c' :: '=' :: value =>
    valueEffect LinkOptions.setConfiguration options (some (String.ofList value))
  | 'c' :: value =>
    valueEffect LinkOptions.setConfiguration options (some (String.ofList value))
  | _ => .fail

/-- Read the words behind `--`, none of which is an option. -/
def plainWords? (options : LinkOptions) : List String → Option LinkOptions
  | [] => some options
  | word :: rest =>
    match options.setManifest word with
    | some changed => plainWords? changed rest
    | none => none

/-- A request to link, if there is a manifest. -/
def linkRequest? (options : LinkOptions) : Option Request :=
  options.manifest.map fun manifest => .link manifest options

/-- Read the words behind the command `link`. -/
def linkWords? (options : LinkOptions) : List String → Option Request
  | [] => linkRequest? options
  | word :: rest =>
    let effect :=
      match classify word with
      | .endOfOptions => none
      | .long name value => some (longEffect options name value)
      | .short letters => some (shortEffect options letters)
      | .plain text =>
        match options.setManifest text with
        | some changed => some (.done changed)
        | none => some .fail
    match effect with
    | none => (plainWords? options rest).bind linkRequest?
    | some .fail => none
    | some .help => some (.help .linkCommand)
    | some (.done changed) => linkWords? changed rest
    | some (.needsValue set changed) =>
      match rest with
      | [] => none
      | value :: others =>
        match classify value with
        | .plain text =>
          match set changed text with
          | some complete => linkWords? complete others
          | none => none
        | _ => none

/-- The request behind the command `help`, which may name another command. -/
def helpRequest? : List String → Option Request
  | [] => some (.help .program)
  | ["link"] => some (.help .linkCommand)
  | ["help"] => some (.help .helpCommand)
  | _ => none

/-- Read combined short options in front of the command.  The answer is the
number of times that more telling was asked for, or a request. -/
def frontLetters? : Nat → List Char → Option (Nat ⊕ Request)
  | verbosity, [] => some (.inl verbosity)
  | verbosity, 'v' :: rest => frontLetters? (verbosity + 1) rest
  | _, 'h' :: _ => some (.inr (.help .program))
  | _, 'V' :: _ => some (.inr .version)
  | _, _ => none

/-- Verbosity asked for behind the command counts, and else that in front of
it. -/
def withFrontVerbosity (verbosity : Nat) : Request → Request
  | .link manifest options =>
    .link manifest
      (if options.verbosity = 0 then { options with verbosity } else options)
  | request => request

/-- Read a command line; nothing comes of one that is not understood. -/
def parseFrom? : Nat → List String → Option Request
  | _, [] => none
  | verbosity, word :: rest =>
    if word = "link" then
      (linkWords? LinkOptions.initial rest).map (withFrontVerbosity verbosity)
    else if word = "help" then helpRequest? rest
    else
      match classify word with
      | .long "verbose" none => parseFrom? (verbosity + 1) rest
      | .long "version" none => some .version
      | .long "help" none => some (.help .program)
      | .short letters =>
        match frontLetters? verbosity letters with
        | some (.inl more) => parseFrom? more rest
        | some (.inr request) => some request
        | none => none
      | _ => none

/-- Read a command line without the name of the program. -/
def parse? (words : List String) : Option Request := parseFrom? 0 words

/-- What a run of the program shows: the exit code, the output, and the log. -/
structure Report where
  exitCode : Nat
  output : String
  log : List LogMessage
deriving DecidableEq, Repr

namespace Report

/-- The text of the log. -/
def logText (report : Report) : String := String.join (report.log.map LogMessage.rendered)

end Report

/-- Whether a message appears in a log.  Information has to be asked for. -/
def admits (verbosity : Nat) : Severity → Bool
  | .error => true
  | .warning => true
  | .information => 0 < verbosity

/-- The messages of a journal that appear in a log. -/
def logOf (verbosity : Nat) (journal : List JournalEntry) : List LogMessage :=
  (journal.filterMap LogMessage.ofEntry?).filter fun message => admits verbosity message.severity

/-- The name and version of the program. -/
def versionText : String := "scopelink 0.1.0\n"

/-- What the program can do. -/
def helpText : String :=
  "Link concatenated JavaScript modules and render their ESM interface\n\n" ++
  "Usage: scopelink [OPTIONS] <COMMAND>\n\n" ++
  "Commands:\n" ++
  "  link  Link the modules of a manifest and print the root module's interface\n" ++
  "  help  Print this message or the help of the given subcommand(s)\n\n" ++
  "Options:\n" ++
  "  -v, --verbose...  Increase log verbosity (-v info, -vv debug, -vvv trace)\n" ++
  "  -h, --help        Print help\n" ++
  "  -V, --version     Print version\n"

/-- How the command `link` is used. -/
def linkHelpText : String :=
  "Link the modules of a manifest and print the root module's interface\n\n" ++
  "Usage: scopelink link [OPTIONS] <MANIFEST>\n\n" ++
  "Arguments:\n" ++
  "  <MANIFEST>  Manifest describing modules, exports and the concatenation\n\n" ++
  "Options:\n" ++
  "  -c, --config <CONFIG>    Link configuration file\n" ++
  "  -v, --verbose...         Increase log verbosity (-v info, -vv debug, -vvv trace)\n" ++
  "      --runtime <RUNTIME>  Runtime used for used-name lookups, overrides the config file\n" ++
  "      --hash               Append the content hash of the concatenation as a comment\n" ++
  "  -h, --help               Print help\n"

/-- How the command `help` is used. -/
def helpHelpText : String :=
  "Print this message or the help of the given subcommand(s)\n\n" ++
  "Usage: scopelink help [COMMAND]...\n\n" ++
  "Arguments:\n" ++
  "  [COMMAND]...  Print help for the subcommand(s)\n"

/-- The help about a topic. -/
def helpOn : HelpTopic → String
  | .program => helpText
  | .linkCommand => linkHelpText
  | .helpCommand => helpHelpText

/-- The line that shows the fingerprint of what was merged. -/
def fingerprintLine (library : LinkedLibrary) : String :=
  match library.fingerprint with
  | some fingerprint => "// content hash: " ++ fingerprint ++ "\n"
  | none => ""

/-- Carry out a request to link. -/
def runLink (read : String → Except ReadFailure String) (manifest : String)
    (options : LinkOptions) : Report :=
  let outcome := Loading.linkFiles read options.configuration options.runtime manifest
  let log := logOf options.verbosity outcome.journal
  match outcome.result with
  | .error reason => ⟨1, "", log ++ [LogMessage.ofFailure reason.message]⟩
  | .ok library =>
    let ending := if options.showsFingerprint then fingerprintLine library else ""
    ⟨0, library.code ++ ending, log⟩

/-- Run the program on the words of a command line, without its own name. -/
def run (read : String → Except ReadFailure String) (words : List String) : Report :=
  match parse? words with
  | none => ⟨2, "", []⟩
  | some .version => ⟨0, versionText, []⟩
  | some (.help topic) => ⟨0, helpOn topic, []⟩
  | some (.link manifest options) => runLink read manifest options

/-- The paths that a command line names, which are all that a run reads. -/
def paths (words : List String) : List String :=
  match parse? words with
  | some (.link manifest options) => options.configuration.toList ++ [manifest]
  | _ => []

end CommandLine

end ModuleLinker
