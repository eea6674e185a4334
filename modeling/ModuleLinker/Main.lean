import ModuleLinker.CommandLine

/-!
# The program

The outermost layer: it reads the files that the command line names, prints the
output, and writes the log to the standard error stream.
-/

namespace ModuleLinker

namespace Program

/-- The failure that an error of the file system stands for.  Opening a file fails
with its name, and reading an open one without. -/
def readFailure : IO.Error → ReadFailure
  | .noFileOrDirectory .. => .notFound
  | .inappropriateType (some _) _ _ => .notDirectory
  | .inappropriateType none _ _ => .isDirectory
  | .invalidArgument (some _) _ _ => .nameTooLong
  | error => .other (toString error)

/-- Read one file. -/
def readFile (path : String) : IO (Except ReadFailure String) := do
  try
    return .ok (← IO.FS.readFile ⟨path⟩)
  catch error =>
    return .error (readFailure error)

end Program

end ModuleLinker

open ModuleLinker in
/-- Run the program. -/
def main (words : List String) : IO UInt32 := do
  let mut files : List (String × Except ReadFailure String) := []
  for path in CommandLine.paths words do
    files := files ++ [(path, ← Program.readFile path)]
  let report := CommandLine.run (fun path => (files.lookup path).getD (.error .notFound)) words
  IO.eprint report.logText
  if report.exitCode = 2 then IO.eprint CommandLine.helpText
  IO.print report.output
  return report.exitCode.toUInt32
