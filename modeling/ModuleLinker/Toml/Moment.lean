import ModuleLinker.Number.Decimal
import ModuleLinker.Toml.Lexical

/-!
# Dates and times

A TOML date or time has many spellings, and one normal text: a capital `T`
between date and time, seconds always, a fraction without zeros at its end and of
at most nine digits, and a capital `Z` or an offset in hours and minutes.  Every
function takes the rest of the text and gives back the normal text of what it
read, with what is left.
-/

namespace ModuleLinker

namespace Toml

/-- The number of days in a month. -/
def daysIn (year month : Nat) : Nat :=
  if month = 2 then
    if year % 4 = 0 ∧ (year % 100 ≠ 0 ∨ year % 400 = 0) then 29 else 28
  else if month = 4 ∨ month = 6 ∨ month = 9 ∨ month = 11 then 30
  else 31

/-- A number of a fixed count of digits. -/
def fixedDigits? (count : Nat) (cs : List Char) : Option (Nat × List Char) :=
  let written := cs.take count
  if written.length = count ∧ written.all Char.isDigit then
    some (Decimal.valueOf written, cs.drop count)
  else none

/-- A date, which is already normal. -/
def date? (cs : List Char) : Option (List Char × List Char) := do
  let (year, afterYear) ← fixedDigits? 4 cs
  let (month, afterMonth) ← fixedDigits? 2 (← expect? '-' afterYear)
  let (day, rest) ← fixedDigits? 2 (← expect? '-' afterMonth)
  if 1 ≤ month ∧ month ≤ 12 ∧ 1 ≤ day ∧ day ≤ daysIn year month then some (cs.take 10, rest)
  else none

/-- Hours and minutes of a day, which are already normal. -/
def hourMinute? (cs : List Char) : Option (List Char × List Char) := do
  let (hour, afterHour) ← fixedDigits? 2 cs
  let (minute, rest) ← fixedDigits? 2 (← expect? ':' afterHour)
  if hour ≤ 23 ∧ minute ≤ 59 then some (cs.take 5, rest) else none

/-- The digits of a fraction that count: nine at most, and no zeros at the
end. -/
def fractionDigits (digits : List Char) : List Char :=
  ((digits.take 9).reverse.dropWhile (· == '0')).reverse

/-- The fraction of a second, if there is one. -/
def fraction? : List Char → Option (List Char × List Char)
  | '.' :: rest =>
    let written := rest.takeWhile Char.isDigit
    let digits := fractionDigits written
    if written.isEmpty then none
    else some (if digits.isEmpty then [] else '.' :: digits, rest.dropWhile Char.isDigit)
  | cs => some ([], cs)

/-- The seconds of a time with their colon; they are zero when left out. -/
def seconds? : List Char → Option (List Char × List Char)
  | ':' :: rest => do
    let (second, after) ← fixedDigits? 2 rest
    let (fraction, left) ← fraction? after
    if second ≤ 60 then some (':' :: rest.take 2 ++ fraction, left) else none
  | cs => some ([':', '0', '0'], cs)

/-- A time of day. -/
def time? (cs : List Char) : Option (List Char × List Char) := do
  let (hourMinute, afterMinute) ← hourMinute? cs
  let (seconds, rest) ← seconds? afterMinute
  some (hourMinute ++ seconds, rest)

/-- The offset of a time from universal time, if there is one.  No offset has a
positive sign. -/
def offset? : List Char → Option (List Char × List Char)
  | [] => some ([], [])
  | c :: rest =>
    if c = 'Z' ∨ c = 'z' then some (['Z'], rest)
    else if c = '+' ∨ c = '-' then do
      let (hourMinute, after) ← hourMinute? rest
      let sign := if hourMinute = ['0', '0', ':', '0', '0'] then '+' else c
      some (sign :: hourMinute, after)
    else some ([], c :: rest)

/-- The normal text of a date, a time of day, or both with or without an offset,
if the characters write one. -/
def moment? (cs : List Char) : Option String :=
  match date? cs with
  | some (date, []) => some (String.ofList date)
  | some (date, c :: rest) =>
    if c = 'T' ∨ c = 't' ∨ c = ' ' then do
      let (time, afterTime) ← time? rest
      let (offset, left) ← offset? afterTime
      if left.isEmpty then some (String.ofList (date ++ 'T' :: time ++ offset)) else none
    else none
  | none => do
    let (time, left) ← time? cs
    if left.isEmpty then some (String.ofList time) else none

end Toml

end ModuleLinker
