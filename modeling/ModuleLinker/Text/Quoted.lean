import ModuleLinker.Text.Identifier

/-!
# Quoted names

Names in generated code are either bare or quoted.  A quoted name is a string
literal on one line: quote marks and backslashes are escaped, and so is every
control character and line separator.
-/

namespace ModuleLinker

namespace Quoted

/-- The digits of hexadecimal numbers. -/
def hexDigit (n : Nat) : Char :=
  if n < 10 then Char.ofNat (48 + n) else Char.ofNat (87 + n)

/-- The last four hexadecimal digits of a number, the most significant
first. -/
def fourHexDigits (n : Nat) : List Char :=
  [hexDigit (n / 4096 % 16), hexDigit (n / 256 % 16), hexDigit (n / 16 % 16), hexDigit (n % 16)]

/-- Whether a character is a control character: the first 32 code points, and
those from 127 to 159. -/
def isControl (c : Char) : Bool := c.toNat < 32 || (127 ≤ c.toNat && c.toNat < 160)

/-- Whether a character is one of the two line separators beyond ASCII. -/
def isLineSeparator (c : Char) : Bool := c.toNat == 0x2028 || c.toNat == 0x2029

/-- One character inside a string literal.  The named escapes serve for line
feed, carriage return and tab, and the numeric one for other characters that
would end the line or cannot be seen. -/
def escapeChar (c : Char) : List Char :=
  if c = '\\' then ['\\', '\\']
  else if c = '"' then ['\\', '"']
  else if c = '\n' then ['\\', 'n']
  else if c = '\r' then ['\\', 'r']
  else if c = '\t' then ['\\', 't']
  else if isControl c || isLineSeparator c then '\\' :: 'u' :: fourHexDigits c.toNat
  else [c]

/-- The characters between the quote marks of a string literal. -/
def escape (cs : List Char) : List Char := cs.flatMap escapeChar

@[simp] theorem escape_nil : escape [] = [] := rfl

@[simp] theorem escape_cons (c : Char) (cs : List Char) :
    escape (c :: cs) = escapeChar c ++ escape cs := rfl

/-- The characters of a text as a string literal. -/
def literalChars (cs : List Char) : List Char := '"' :: (escape cs ++ ['"'])

/-- A text as a double-quoted string literal on one line. -/
def literal (text : String) : String := String.ofList (literalChars text.toList)

/-- The access to one property of an object: after a dot where that is
possible, which includes reserved words, and else in brackets. -/
def property (name : String) : String :=
  if Identifier.isIdentifier name || Identifier.isReserved name then "." ++ name
  else "[" ++ literal name ++ "]"

/-- The access to a property of a property and so on, along a list of names. -/
def propertyChain (names : List String) : String := String.join (names.map property)

/-- A name where an import or export list names a foreign binding: bare when it
is an identifier or `default`, and else quoted. -/
def specifier (name : String) : String :=
  if Identifier.isIdentifier name || name == "default" then name else literal name

end Quoted

end ModuleLinker
