import ModuleLinker.Toml.Scalar
import ModuleLinker.Toml.Tree

/-!
# TOML texts

A TOML text is read line by line into a table.  The reader accepts version 1.1
of the language, in which inline tables may span lines and end in a comma.
-/

namespace ModuleLinker

namespace Toml

/-- Whether a character can stand in a key without quotation marks. -/
def isKeyChar (c : Char) : Bool := c.isAlphanum || c == '_' || c == '-'

/-- One part of a key: bare, or a string on one line. -/
def keyPart? (cs : List Char) : Option (String × List Char) :=
  match lineString? cs with
  | some (content, rest) => some (String.ofList content, rest)
  | none =>
    let word := cs.takeWhile isKeyChar
    if word.isEmpty then none else some (String.ofList word, cs.dropWhile isKeyChar)

/-- The parts of a key behind its first one, of which there may be only a given
number. -/
def keyTail? (limit : Nat) (cs : List Char) : Option (List String × List Char) :=
  match skipBlanks cs with
  | '.' :: rest =>
    match limit with
    | 0 => none
    | limit + 1 => do
      let (part, afterPart) ← keyPart? (skipBlanks rest)
      let (parts, after) ← keyTail? limit afterPart
      some (part :: parts, after)
  | rest => some ([], rest)

/-- How deep brackets may be nested, and how many parts a key may have. -/
def nestingLimit : Nat := 80

/-- A key with its parts: the path in front and the last part.  Blanks around it
are dropped. -/
def key? (cs : List Char) : Option (List String × String × List Char) := do
  let (first, afterFirst) ← keyPart? (skipBlanks cs)
  let (others, after) ← keyTail? (nestingLimit - 1) afterFirst
  let parts := first :: others
  some (parts.dropLast, parts.getLast?.getD first, after)

mutual

/-- A value.  `depth` bounds the nesting of brackets and `fuel` the number of
values and separators. -/
def value? : Nat → Nat → List Char → Option (Document × List Char)
  | 0, _, _ => none
  | fuel + 1, depth, cs =>
    match cs with
    | [] => none
    | c :: rest =>
      if c = '"' ∨ c = '\'' then
        (string? cs).map fun (text, after) => (.text text, after)
      else if c = '[' then
        match depth with
        | 0 => none
        | depth + 1 => do
          let (items, after) ← items? fuel depth (← skipSpace? rest)
          some (.list items, after)
      else if c = '\x7b' then
        match depth with
        | 0 => none
        | depth + 1 => do
          let (entries, after) ← entries? fuel depth [] (← skipSpace? rest)
          some (finishEntries entries, after)
      else
        let (word, after) := splitBare cs
        (bare? word).map fun value => (value, after)

/-- The items of an array up to its closing bracket. -/
def items? : Nat → Nat → List Char → Option (List Document × List Char)
  | 0, _, _ => none
  | fuel + 1, depth, cs =>
    match cs with
    | ']' :: rest => some ([], rest)
    | _ => do
      let (item, afterItem) ← value? fuel depth cs
      match ← skipSpace? afterItem with
      | ',' :: rest => do
        let (items, after) ← items? fuel depth (← skipSpace? rest)
        some (item :: items, after)
      | ']' :: rest => some ([item], rest)
      | _ => none

/-- The entries of an inline table up to its closing brace, added to those that
were read before.  Lines may end on both sides of an equals sign. -/
def entries? : Nat → Nat → Entries → List Char → Option (Entries × List Char)
  | 0, _, _, _ => none
  | fuel + 1, depth, entries, cs =>
    match cs with
    | '\x7d' :: rest => some (entries, rest)
    | _ => do
      let (path, key, afterKey) ← key? cs
      let valueStart ← skipSpace? (← expect? '=' (← skipSpace? afterKey))
      let (value, afterValue) ← value? fuel depth valueStart
      let extended ← assign path key value .opened entries
      match ← skipSpace? afterValue with
      | ',' :: rest => entries? fuel depth extended (← skipSpace? rest)
      | '\x7d' :: rest => some (extended, rest)
      | _ => none

end

/-- Where reading stands: the table that the last header opened, and all that
was read. -/
structure Reading where
  header : List String
  root : Entries

/-- Read a header, given what follows its first bracket. -/
def headerLine? (reading : Reading) (cs : List Char) : Option (Reading × List Char) :=
  match cs with
  | '[' :: rest => do
    let (path, key, afterKey) ← key? rest
    let after ← expect? ']' (← expect? ']' afterKey)
    let root ← openArrayTable path key reading.root
    some (⟨path ++ [key], root⟩, after)
  | _ => do
    let (path, key, afterKey) ← key? cs
    let after ← expect? ']' afterKey
    let root ← openTable path key reading.root
    some (⟨path ++ [key], root⟩, after)

/-- Read a key with its value.  `fuel` bounds the number of values and separators
in it. -/
def assignmentLine? (fuel : Nat) (reading : Reading) (cs : List Char) :
    Option (Reading × List Char) := do
  let (path, key, afterKey) ← key? cs
  let valueStart := skipBlanks (← expect? '=' afterKey)
  let (value, after) ← value? fuel nestingLimit valueStart
  let root ← assignUnder reading.header path key value reading.root
  some ({ reading with root }, after)

/-- Read line after line.  `size` is the length of the text, which bounds the
number of lines left in `fuel`. -/
def lines? (size : Nat) : Nat → Reading → List Char → Option Reading
  | 0, _, _ => none
  | fuel + 1, reading, cs => do
    match ← skipSpace? cs with
    | [] => some reading
    | '[' :: rest => do
      let (next, after) ← headerLine? reading rest
      lines? size fuel next (← finishLine? after)
    | start => do
      let (next, after) ← assignmentLine? (2 * size) reading start
      lines? size fuel next (← finishLine? after)

/-- Drop a byte order mark. -/
def dropByteOrderMark : List Char → List Char
  | c :: rest => if c.toNat = 0xfeff then rest else c :: rest
  | [] => []

/-- The table that a TOML text writes, unless the text is malformed. -/
def parse? (text : String) : Option Document := do
  let cs := dropByteOrderMark text.toList
  let reading ← lines? cs.length (cs.length + 1) ⟨[], []⟩ cs
  some (finishEntries reading.root)

end Toml

end ModuleLinker
