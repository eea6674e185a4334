import ModuleLinker.Document
import ModuleLinker.Number.Decimal
import ModuleLinker.Number.Width
import ModuleLinker.Toml.Text

/-!
# Numbers

TOML numbers may have single underscores between their digits.  Some texts are
numbers by their form and still have no value: those too large for their kind,
those with other characters behind an underscore, and a base without digits.
They make an unreadable document, and only a text without the form of a number
is refused.
-/

namespace ModuleLinker

namespace Toml

/-- Whether a character is a digit in the largest of the bases. -/
def isHexDigit (c : Char) : Bool := (hexValue? c).isSome

/-- Whether the parts between underscores begin and end with a digit where an
underscore stands beside them.  Of a part that is one character long only the
beginning counts. -/
def fitsUnderscores (isDigit : Char → Bool) : Bool → List (List Char) → Bool
  | _, [] => true
  | isFirst, part :: rest =>
    let begins := isFirst || (part.head?.map isDigit).getD false
    let ends := rest.isEmpty || part.length == 1 || (part.getLast?.map isDigit).getD false
    begins && ends && fitsUnderscores isDigit false rest

/-- The characters between underscores. -/
def splitUnderscores : List Char → List (List Char)
  | [] => [[]]
  | '_' :: rest => [] :: splitUnderscores rest
  | c :: rest =>
    match splitUnderscores rest with
    | [] => [[c]]
    | part :: parts => (c :: part) :: parts

/-- The characters without underscores, if those stand between digits. -/
def dropUnderscores? (isDigit : Char → Bool) (cs : List Char) : Option (List Char) :=
  if fitsUnderscores isDigit true (splitUnderscores cs) then some (cs.filter (· != '_')) else none

/-- A whole number as a document. -/
def wholeNumber (value : Int) : Document :=
  if fitsInBits 128 value then .integer value else .unreadable

/-- A whole number in a base that is a power of two, without a sign, given its
digits. -/
def radixNumber? (base : Nat) (isDigit : Char → Bool) (cs : List Char) : Option Document :=
  if cs.isEmpty then some .unreadable
  else if !cs.all fun c => isDigit c || c == '_' then none
  else (dropUnderscores? isDigit cs).map fun digits =>
    wholeNumber (digits.foldl (fun value c => base * value + (hexValue? c).getD 0) 0)

/-- Whether the digits of a whole number begin with a zero that stands for
nothing. -/
def hasLeadingZero (digits : List Char) : Bool := digits.head? = some '0' && digits.length != 1

/-- A whole number in base ten, given without its sign. -/
def wholeNumber? (negative : Bool) (cs : List Char) : Option Document := do
  let digits ← dropUnderscores? isHexDigit cs
  if hasLeadingZero cs || cs.isEmpty then none
  else if !Decimal.areDigits digits then some .unreadable
  else
    let value : Int := Decimal.valueOf digits
    some (wholeNumber (if negative then -value else value))

/-- Whether characters are digits and underscores, and at least one. -/
def areGrouped (cs : List Char) : Bool := !cs.isEmpty && cs.all fun c => c.isDigit || c == '_'

/-- Whether a character begins the exponent of a floating-point number. -/
def isExponentMark (c : Char) : Bool := c == 'e' || c == 'E'

/-- Whether characters have the form of a floating-point number without its sign:
digits, a fraction, and an exponent, of which the last two can be left out. -/
def hasFloatForm (cs : List Char) : Bool :=
  let mantissa := cs.takeWhile fun c => !isExponentMark c
  let whole := mantissa.takeWhile (· != '.')
  let fractionFits :=
    match mantissa.dropWhile (· != '.') with
    | [] => true
    | _ :: fraction => areGrouped fraction
  let exponentFits :=
    match cs.dropWhile fun c => !isExponentMark c with
    | [] => true
    | _ :: exponent => areGrouped (Decimal.splitSign exponent).2
  areGrouped whole && !hasLeadingZero whole && fractionFits && exponentFits

/-- A floating-point number as a document.  One beyond the range has no value. -/
def floatNumber (value : Float) : Document := if value.isInf then .unreadable else .float value

/-- A floating-point number, given without its sign. -/
def floatNumber? (negative : Bool) (cs : List Char) : Option Document := do
  let written ← dropUnderscores? Char.isDigit cs
  if hasFloatForm cs then
    let (digits, exponent) ← Decimal.unsigned? written
    some (floatNumber (Decimal.nearest negative digits exponent))
  else none

/-- A number in base ten, given without its sign.  What stands behind its first
digits tells which kind of number it is. -/
def decimalNumber? (negative : Bool) (cs : List Char) : Option Document :=
  let rest := cs.dropWhile Char.isDigit
  if rest.isEmpty then wholeNumber? negative cs
  else if rest.contains ' ' then none
  else if rest.any fun c => c == '.' || isExponentMark c then floatNumber? negative cs
  else if rest.head? = some '_' then wholeNumber? negative cs
  else none

/-- The number that characters write, if they have the form of one. -/
def number? (cs : List Char) : Option Document :=
  match cs with
  | '0' :: 'x' :: digits => radixNumber? 16 isHexDigit digits
  | '0' :: 'o' :: digits => radixNumber? 8 (fun c => c.isDigit && c.toNat < '8'.toNat) digits
  | '0' :: 'b' :: digits => radixNumber? 2 (fun c => c == '0' || c == '1') digits
  | _ =>
    let (negative, unsigned) := Decimal.splitSign cs
    if unsigned = ['i', 'n', 'f'] then some (.float (if negative then -(1.0 / 0.0) else 1.0 / 0.0))
    else if unsigned = ['n', 'a', 'n'] then some (.float (0.0 / 0.0))
    else decimalNumber? negative unsigned

end Toml

end ModuleLinker
