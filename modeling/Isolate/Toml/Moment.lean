import Isolate.Number.Decimal

/-!
# Dates and times in TOML

* `Toml.readMoment?`: a date, a time, or both with or without an offset;
* the result is the text of the moment in its normal form: the letters `T` and `Z`, and no zeros at
  the end of a fraction.
-/

namespace Isolate.Toml

/-- Reads exactly so many digits. -/
def fixedDigits (count : Nat) (cs : List Char) : Option (Nat × List Char) :=
  let ds := cs.take count
  if ds.length = count && ds.all isDecimalDigit then some (digitsValue 10 ds, cs.drop count)
  else none

/-- Reads one given character. -/
def expectChar (c : Char) : List Char → Option (List Char)
  | d :: cs => if c = d then some cs else none
  | [] => none

/-- The year has a 29th of February. -/
def isLeapYear (year : Nat) : Bool := (year % 4 = 0 && year % 100 ≠ 0) || year % 400 = 0

/-- The number of days in a month. -/
def daysInMonth (year month : Nat) : Nat :=
  if month = 2 then if isLeapYear year then 29 else 28
  else if month = 4 ∨ month = 6 ∨ month = 9 ∨ month = 11 then 30 else 31

/-- A number in decimal, with zeros in front up to the given width. -/
def padded (width n : Nat) : List Char :=
  let ds := decimalDigits n
  zeros (width - ds.length) ++ ds

/-- Reads a date. -/
def readDate (cs : List Char) : Option (List Char × List Char) := do
  let (year, cs) ← fixedDigits 4 cs
  let cs ← expectChar '-' cs
  let (month, cs) ← fixedDigits 2 cs
  let cs ← expectChar '-' cs
  let (day, cs) ← fixedDigits 2 cs
  if 1 ≤ month ∧ month ≤ 12 ∧ 1 ≤ day ∧ day ≤ daysInMonth year month then
    some (padded 4 year ++ '-' :: padded 2 month ++ '-' :: padded 2 day, cs)
  else none

/-- Reads the fraction of a second; nine digits of it are kept. -/
def readFraction (cs : List Char) : Option (List Char × List Char) :=
  match cs with
  | '.' :: rest =>
    let ds := rest.takeWhile isDecimalDigit
    if ds.isEmpty then none
    else
      let kept := (stripZeros (ds.take 9)).1
      some ('.' :: (if kept.isEmpty then ['0'] else kept), rest.dropWhile isDecimalDigit)
  | _ => some ([], cs)

/-- Reads a time; seconds may be left out. -/
def readTime (cs : List Char) : Option (List Char × List Char) := do
  let (hour, cs) ← fixedDigits 2 cs
  let cs ← expectChar ':' cs
  let (minute, cs) ← fixedDigits 2 cs
  if 23 < hour ∨ 59 < minute then none
  else
    let upToMinute := padded 2 hour ++ ':' :: padded 2 minute
    match cs with
    | ':' :: cs => do
      let (second, cs) ← fixedDigits 2 cs
      let (fraction, cs) ← readFraction cs
      if 60 < second then none
      else some (upToMinute ++ ':' :: padded 2 second ++ fraction, cs)
    | _ => some (upToMinute, cs)

/-- Reads an offset, if there is one. -/
def readOffset (cs : List Char) : Option (List Char × List Char) :=
  match cs with
  | [] => some ([], [])
  | c :: rest =>
    if c = 'Z' ∨ c = 'z' then some (['Z'], rest)
    else if c = '+' ∨ c = '-' then do
      let (hour, rest) ← fixedDigits 2 rest
      let rest ← expectChar ':' rest
      let (minute, rest) ← fixedDigits 2 rest
      let sign := if hour = 0 ∧ minute = 0 then '+' else c
      if 23 < hour ∨ 59 < minute then none
      else some (sign :: padded 2 hour ++ ':' :: padded 2 minute, rest)
    else none

/-- The normal form of a date, a time, or a date with a time and perhaps an offset. -/
def readMoment? (cs : List Char) : Option String := do
  match readDate cs with
  | some (date, []) => some (String.ofList date)
  | some (date, c :: rest) =>
    if c = 'T' ∨ c = 't' ∨ c = ' ' then
      let (time, rest) ← readTime rest
      let (offset, rest) ← readOffset rest
      if rest.isEmpty then some (String.ofList (date ++ 'T' :: time ++ offset)) else none
    else none
  | none =>
    let (time, rest) ← readTime cs
    if rest.isEmpty then some (String.ofList time) else none

end Isolate.Toml
