/-!
# Texts on a terminal

Control characters and escape sequences steer a terminal and are not part of what
a reader sees.  A text is made plain by leaving them out, all but tabs and the
ends of lines and pages.
-/

namespace ModuleLinker

namespace Terminal

/-- What a terminal is in the middle of: a visible text, an escape, a sequence
of parameters up to a letter, a command up to a bell, the head of a message to a
device (at its beginning, behind a parameter, or behind an intermediate
character), or the body of a message.  A message with a malformed head counts as
one whose body has begun. -/
inductive State
  | ground
  | escape
  | escapeIntermediate
  | sequence
  | command
  | messageHead
  | messageParameter
  | messageIntermediate
  | messageBody
deriving DecidableEq, Repr

/-- Whether the code of a character is in a range. -/
def isBetween (low high : Nat) (c : Char) : Bool := decide (low ≤ c.toNat ∧ c.toNat ≤ high)

/-- Whether the encoding of a character has the byte that ends a message. -/
def endsMessage (c : Char) : Bool := (String.utf8EncodeChar c).contains 0x9c

/-- The state behind a character. -/
def next (state : State) (c : Char) : State :=
  if c = '\x1b' then .escape
  else if c = '\x18' ∨ c = '\x1a' then .ground
  else
    match state with
    | .ground => .ground
    | .escape =>
      if isBetween 0x20 0x2f c then .escapeIntermediate
      else if c = '[' then .sequence
      else if c = ']' then .command
      else if c = 'P' then .messageHead
      else if c = 'X' ∨ c = '^' ∨ c = '_' then .messageBody
      else if isBetween 0x30 0x7e c then .ground
      else .escape
    | .escapeIntermediate => if isBetween 0x30 0x7e c then .ground else .escapeIntermediate
    | .sequence => if isBetween 0x40 0x7e c then .ground else .sequence
    | .command => if c = '\x07' then .ground else .command
    | .messageHead =>
      if isBetween 0x20 0x2f c then .messageIntermediate
      else if isBetween 0x30 0x3f c then .messageParameter
      else if isBetween 0x40 0x7e c then .messageBody
      else .messageHead
    | .messageParameter =>
      if isBetween 0x20 0x2f c then .messageIntermediate
      else if isBetween 0x3c 0x7e c then .messageBody
      else .messageParameter
    | .messageIntermediate =>
      if isBetween 0x30 0x7e c then .messageBody else .messageIntermediate
    | .messageBody => if endsMessage c then .ground else .messageBody

/-- Whether a character is a tab or ends a line or page.  It takes effect within
escapes and sequences too. -/
def isLayout (c : Char) : Bool := c == '\t' || c == '\n' || c == '\x0c' || c == '\r'

/-- Whether a character shows in a state. -/
def shows (state : State) (c : Char) : Bool :=
  match state with
  | .ground => isBetween 0x20 0x7e c || decide (0x80 ≤ c.toNat) || isLayout c
  | .escape | .escapeIntermediate | .sequence => isLayout c
  | .command | .messageHead | .messageParameter | .messageIntermediate | .messageBody => false

/-- The state behind a character that shows as part of a visible text.  One of
plain ASCII leaves a sequence open that a line end or the like has interrupted. -/
def nextShown (state : State) (c : Char) : State := if c.toNat < 0x80 then state else .ground

/-- Leave out what does not show.  Once a character shows, those behind it are
taken for visible text up to the next control character, whatever the state. -/
def plainFrom (inText : Bool) (state : State) : List Char → List Char
  | [] => []
  | c :: rest =>
    if shows (if inText then .ground else state) c then
      c :: plainFrom true (if inText then nextShown state c else next state c) rest
    else plainFrom false (next state c) rest

/-- A text without the characters that only steer a terminal. -/
def plain (text : String) : String := String.ofList (plainFrom false .ground text.toList)

end Terminal

end ModuleLinker
