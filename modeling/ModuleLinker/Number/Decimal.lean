/-!
# Reading decimal numbers

The 64-bit float nearest to a decimal number, whatever its size: numbers beyond
the range become an infinity, and numbers too small for it become zero.
-/

namespace ModuleLinker

namespace Decimal

/-- The value of a digit. -/
def digitValue (c : Char) : Nat := c.toNat - '0'.toNat

/-- The number that decimal digits write. -/
def valueOf (digits : List Char) : Nat :=
  digits.foldl (fun value c => 10 * value + digitValue c) 0

/-- Whether characters are digits, and at least one. -/
def areDigits (cs : List Char) : Bool := !cs.isEmpty && cs.all Char.isDigit

/-- The float nearest to `digits · 10 ^ exponent`.  Exponents far outside the
range decide the answer alone, so no huge power is ever computed. -/
def nearest (negative : Bool) (digits : Nat) (exponent : Int) : Float :=
  let magnitude : Int := (Nat.toDigits 10 digits).length + exponent
  let size :=
    if digits = 0 ∨ magnitude < -400 then 0.0
    else if 400 < magnitude then 1.0 / 0.0
    else Float.ofScientific digits (exponent < 0) exponent.natAbs
  if negative then -size else size

/-- Split off a leading sign; `true` stands for minus. -/
def splitSign : List Char → Bool × List Char
  | '-' :: rest => (true, rest)
  | '+' :: rest => (false, rest)
  | cs => (false, cs)

/-- An exponent with an optional sign. -/
def exponent? (cs : List Char) : Option Int :=
  let (negative, digits) := splitSign cs
  if areDigits digits then
    some (if negative then -(valueOf digits : Int) else valueOf digits)
  else none

/-- A number without its sign: digits around an optional point, at least one in
all, and an optional exponent.  The parts are the digits as one number and the
power of ten. -/
def unsigned? (cs : List Char) : Option (Nat × Int) :=
  let whole := cs.takeWhile Char.isDigit
  let afterWhole := cs.dropWhile Char.isDigit
  let (fraction, afterFraction) :=
    match afterWhole with
    | '.' :: rest => (rest.takeWhile Char.isDigit, rest.dropWhile Char.isDigit)
    | rest => ([], rest)
  if whole.isEmpty && fraction.isEmpty then none
  else
    let digits := valueOf (whole ++ fraction)
    let shift : Int := -(fraction.length : Int)
    match afterFraction with
    | [] => some (digits, shift)
    | c :: rest =>
      if c = 'e' ∨ c = 'E' then (exponent? rest).map fun exponent => (digits, exponent + shift)
      else none

/-- The float that a text writes: a decimal number, `inf`, `infinity` or `nan`
in letters of either case, each with an optional sign. -/
def read? (text : String) : Option Float :=
  let (negative, cs) := splitSign text.toList
  let word := String.ofList (cs.map Char.toLower)
  if word = "inf" ∨ word = "infinity" then some (if negative then -(1.0 / 0.0) else 1.0 / 0.0)
  else if word = "nan" then some (0.0 / 0.0)
  else (unsigned? cs).map fun (digits, exponent) => nearest negative digits exponent

end Decimal

end ModuleLinker
