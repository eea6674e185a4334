/-!
# Blanks, comments and line ends

The parts of a TOML text that carry no value.  Every function takes the rest of
the text and gives back what is left of it, or nothing when the text is
malformed at this place.
-/

namespace ModuleLinker

namespace Toml

/-- Whether a character is a blank within a line. -/
def isBlank (c : Char) : Bool := c == ' ' || c == '\t'

/-- Whether a character may not stand in a comment or a string as it is: the
control characters of ASCII except the tab. -/
def isForbidden (c : Char) : Bool := (c.toNat < 32 && c != '\t') || c.toNat == 127

/-- Drop an expected character. -/
def expect? (expected : Char) : List Char → Option (List Char)
  | [] => none
  | c :: rest => if c = expected then some rest else none

/-- Drop the blanks at the front. -/
def skipBlanks (cs : List Char) : List Char := cs.dropWhile isBlank

/-- Drop one line end: a line feed, or a carriage return with a line feed. -/
def lineEnd? : List Char → Option (List Char)
  | '\n' :: rest => some rest
  | '\r' :: '\n' :: rest => some rest
  | _ => none

/-- Whether the text ends here or a line does. -/
def atLineEnd (cs : List Char) : Bool := cs.isEmpty || (lineEnd? cs).isSome

/-- Drop the characters of a comment up to the end of its line.  Characters that
are forbidden there end it too, so that no line end follows. -/
def commentTail : List Char → List Char
  | [] => []
  | c :: rest => if isForbidden c then c :: rest else commentTail rest

/-- Drop a comment if there is one; its line has to end well. -/
def skipComment? : List Char → Option (List Char)
  | '#' :: rest =>
    let tail := commentTail rest
    if atLineEnd tail then some tail else none
  | cs => some cs

/-- Drop what may stand behind the last value of a line, with the line end. -/
def finishLine? (cs : List Char) : Option (List Char) := do
  let tail ← skipComment? (skipBlanks cs)
  if tail.isEmpty then some [] else lineEnd? tail

mutual

/-- Drop blanks, comments and line ends as long as there are any. -/
def skipSpace? : List Char → Option (List Char)
  | [] => some []
  | '\r' :: '\n' :: rest => skipSpace? rest
  | c :: rest =>
    if isBlank c || c == '\n' then skipSpace? rest
    else if c = '#' then skipCommentSpace? rest
    else some (c :: rest)

/-- Drop the rest of a comment, whose line has to end well, and what
`skipSpace?` drops behind it. -/
def skipCommentSpace? : List Char → Option (List Char)
  | [] => some []
  | '\r' :: '\n' :: rest => skipSpace? rest
  | c :: rest =>
    if c = '\n' then skipSpace? rest
    else if isForbidden c then none
    else skipCommentSpace? rest

end

end Toml

end ModuleLinker
