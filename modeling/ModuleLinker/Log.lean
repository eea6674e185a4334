import ModuleLinker.Journal
import ModuleLinker.Text.Terminal

/-!
# The log

Messages to the user of the program go to a log.  Each has a severity and a part
of the program that it comes from, and begins a line of its own; the lines of its
text behind the first one are indented.
-/

namespace ModuleLinker

/-- A message of the log. -/
structure LogMessage where
  severity : Severity
  source : String
  text : String
deriving DecidableEq, Repr

namespace Severity

/-- The name of a severity in the log, as wide as the longest of them. -/
def label : Severity → String
  | error => "ERROR"
  | warning => "WARN "
  | information => "INFO "

end Severity

namespace LogMessage

/-- The message that an entry of the journal makes.  Notes make none. -/
def ofEntry? (entry : JournalEntry) : Option LogMessage :=
  entry.line?.map fun line => ⟨line.1, "scopelink::build_pass", line.2⟩

/-- A message about why the program failed. -/
def ofFailure (text : String) : LogMessage := ⟨.error, "scopelink", text⟩

/-- A text whose lines behind the first one are indented. -/
def indented (text : String) : String := String.intercalate "\n    " (text.splitOn "\n")

/-- A message as it appears in the log. -/
def rendered (message : LogMessage) : String :=
  Terminal.plain
    ("[" ++ message.severity.label ++ " " ++ message.source ++ "] " ++ indented message.text ++ "\n")

end LogMessage

end ModuleLinker
