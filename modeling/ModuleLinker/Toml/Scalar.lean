import ModuleLinker.Toml.Lexical
import ModuleLinker.Toml.Moment
import ModuleLinker.Toml.Number

/-!
# Bare TOML values

Booleans, numbers, dates and times are written without marks around them.  They
reach up to the next bracket, brace, comma, equals sign, comment or line end, so
blanks can stand in them.  A quotation mark begins a string only where a word
could begin, behind a blank or a dot; within a word it is a character like any
other.
-/

namespace ModuleLinker

namespace Toml

/-- Whether characters have the form of a date or time: digits with a dash or a
colon behind them. -/
def hasMomentForm (cs : List Char) : Bool :=
  match cs.takeWhile Char.isDigit, cs.dropWhile Char.isDigit with
  | _ :: _, c :: _ => c == '-' || c == ':'
  | _, _ => false

/-- The value that bare characters write. -/
def bare? (cs : List Char) : Option Document :=
  if cs = ['t', 'r', 'u', 'e'] then some (.boolean true)
  else if cs = ['f', 'a', 'l', 's', 'e'] then some (.boolean false)
  else if hasMomentForm cs then (moment? cs).map Document.moment
  else number? cs

/-- Whether a character ends a bare value wherever it stands. -/
def endsBare (c : Char) : Bool :=
  c == '\n' || c == '\r' || c == ',' || c == ']' || c == '\x7d' || c == '[' || c == '\x7b' ||
    c == '#' || c == '='

/-- Whether a character begins a string, given the one before it. -/
def beginsString (before c : Char) : Bool :=
  (c == '"' || c == '\'') && (isBlank before || before == '.')

/-- The characters in front of the end of a bare value, and the rest, given the
character before them. -/
def spanBare : Char → List Char → List Char × List Char
  | _, [] => ([], [])
  | before, c :: rest =>
    if endsBare c || beginsString before c then ([], c :: rest)
    else
      let (word, after) := spanBare c rest
      (c :: word, after)

/-- The bare characters at the front and the rest.  Blanks behind the last of
them do not belong to them.  A value begins a word, as if a blank stood before
it. -/
def splitBare (cs : List Char) : List Char × List Char :=
  let (written, after) := spanBare ' ' cs
  ((written.reverse.dropWhile isBlank).reverse, after)

end Toml

end ModuleLinker
