/-!
# Shortest decimal numbers

The decimal number with the fewest digits that reads back as a given 64-bit
float.  A finite positive float is `mantissa · 2 ^ exponent`, and the reals that
round to it form an interval; the interval owns its ends exactly when the
mantissa is even.  Decimal grids are tried from coarse to fine.  On each of them
only the two neighbours of the value can be nearest, so only these are tested.
-/

namespace ModuleLinker

/-- A positive binary number together with the interval of reals that round to
it.  All three numbers are numerators over one denominator. -/
structure RoundingInterval where
  value : Nat
  low : Nat
  high : Nat
  denominator : Nat
  closed : Bool
deriving Repr

/-- A decimal number: the digits, read as one number, times a power of ten. -/
structure DecimalNumber where
  digits : Nat
  exponent : Int
deriving DecidableEq, Repr

namespace RoundingInterval

/-- The interval of a float by its stored parts: the exponent field below 2047
and the 52 fraction bits, not both zero.  Below a power of two the neighbouring
float is only half as far away, except at the smallest exponents. -/
def ofFields (exponentField fraction : Nat) : RoundingInterval :=
  let normal := 0 < exponentField
  let mantissa := if normal then (1 <<< 52) + fraction else fraction
  let exponent : Int := (if normal then exponentField else 1) - 1075
  let below := if fraction = 0 ∧ 1 < exponentField then 1 else 2
  let scale := 1 <<< (exponent - 2).toNat
  { value := 4 * mantissa * scale
    low := (4 * mantissa - below) * scale
    high := (4 * mantissa + 2) * scale
    denominator := 1 <<< (2 - exponent).toNat
    closed := mantissa % 2 = 0 }

/-- Whether a number over the interval's denominator rounds to the value. -/
def contains (interval : RoundingInterval) (numerator : Nat) : Bool :=
  if interval.closed then interval.low ≤ numerator && numerator ≤ interval.high
  else interval.low < numerator && numerator < interval.high

/-- The interval multiplied by a natural number. -/
def scale (interval : RoundingInterval) (factor : Nat) : RoundingInterval :=
  { interval with
    value := interval.value * factor
    low := interval.low * factor
    high := interval.high * factor }

/-- The nearer of the value's two neighbours on the grid of multiples of a power
of ten, if it lies in the interval; of two that are equally near the larger. -/
def onGrid? (interval : RoundingInterval) (exponent : Int) : Option Nat :=
  let scaled := interval.scale (Nat.pow 10 (-exponent).toNat)
  let step := interval.denominator * Nat.pow 10 exponent.toNat
  let floor := scaled.value / step
  let lower := scaled.contains (floor * step)
  let upper := scaled.contains ((floor + 1) * step)
  if upper && (!lower || step ≤ 2 * (scaled.value - floor * step)) then some (floor + 1)
  else if lower then some floor
  else none

/-- The first grid with a hit, from an exponent downwards; `fuel` bounds the
number of grids. -/
def search (interval : RoundingInterval) : Nat → Int → DecimalNumber
  | 0, exponent => ⟨0, exponent⟩
  | fuel + 1, exponent =>
    match interval.onGrid? exponent with
    | some digits => ⟨digits, exponent⟩
    | none => search interval fuel (exponent - 1)

/-- The number of decimal digits of a natural number; `fuel` bounds it. -/
def digitCount : Nat → Nat → Nat
  | 0, _ => 0
  | fuel + 1, n => if n = 0 then 0 else digitCount fuel (n / 10) + 1

/-- The least number of times that a numerator below the denominator has to be
multiplied by ten to reach it; `fuel` bounds it. -/
def leadingZeros (denominator : Nat) : Nat → Nat → Nat
  | 0, _ => 0
  | fuel + 1, numerator =>
    if denominator ≤ numerator then 0 else leadingZeros denominator fuel (numerator * 10) + 1

/-- An exponent whose power of ten lies above the value, and at most ten times
above it. -/
def ceilingExponent (interval : RoundingInterval) : Int :=
  if interval.denominator ≤ interval.value then
    (digitCount 400 (interval.value / interval.denominator) : Int)
  else 1 - (leadingZeros interval.denominator 400 interval.value : Int)

/-- The shortest decimal number in the interval, and of these the nearest to
the value.  Eighteen grids suffice, because seventeen digits always tell a
64-bit float from its neighbours. -/
def shortest (interval : RoundingInterval) : DecimalNumber :=
  interval.search 19 interval.ceilingExponent

end RoundingInterval

namespace DecimalNumber

/-- A decimal number in positional notation, without an exponent and without a
point after whole numbers. -/
def positional (number : DecimalNumber) : String :=
  let digits := Nat.toDigits 10 number.digits
  if 0 ≤ number.exponent then
    String.ofList (digits ++ List.replicate number.exponent.toNat '0')
  else
    let places := (-number.exponent).toNat
    let padded := List.replicate (places + 1 - digits.length) '0' ++ digits
    let whole := padded.length - places
    String.ofList (padded.take whole ++ '.' :: padded.drop whole)

end DecimalNumber

/-- The shortest positional text of a float that is neither infinite nor not a
number.  Zero keeps its sign. -/
def positionalText (x : Float) : String :=
  let bits := x.toBits.toNat
  let sign := if bits.testBit 63 then "-" else ""
  let exponentField := (bits >>> 52) % (1 <<< 11)
  let fraction := bits % (1 <<< 52)
  if exponentField = 0 ∧ fraction = 0 then sign ++ "0"
  else sign ++ (RoundingInterval.ofFields exponentField fraction).shortest.positional

end ModuleLinker
