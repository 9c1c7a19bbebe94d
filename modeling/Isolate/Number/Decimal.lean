import Isolate.Number.Binary64

/-!
# Decimal numerals

Reading and writing double-precision numbers in decimal:

* `Decimal.toBinary64`: the double nearest to a decimal;
* `Decimal.shortest`: the shortest decimal that reads back as a given double, and of those the
  nearest to it;
* `NumberLayout` and `Binary64.text`: where the digits, the point and the exponent are written;
* `Numeral.readFloat`, `Numeral.readUInt64`: the numerals that configuration strings may hold.
-/

namespace Isolate

/-- A decimal: plus or minus the significand times ten to the exponent. -/
structure Decimal where
  negative : Bool
  significand : Nat
  exponent : Int
  deriving DecidableEq, Repr

/-- The value of a decimal digit. -/
def digitValue? (c : Char) : Option Nat :=
  if '0' ≤ c ∧ c ≤ '9' then some (c.toNat - 48) else none

/-- The value of a hexadecimal digit. -/
def hexDigitValue? (c : Char) : Option Nat :=
  if '0' ≤ c ∧ c ≤ '9' then some (c.toNat - 48)
  else if 'a' ≤ c ∧ c ≤ 'f' then some (c.toNat - 87)
  else if 'A' ≤ c ∧ c ≤ 'F' then some (c.toNat - 55)
  else none

/-- The character is a decimal digit. -/
def isDecimalDigit (c : Char) : Bool := (digitValue? c).isSome

/-- The number that a string of digits in the given base writes; other characters count as zero. -/
def digitsValue (base : Nat) (ds : List Char) : Nat :=
  ds.foldl (fun n c => n * base + (hexDigitValue? c).getD 0) 0

/-- The decimal digits of a natural number. -/
def decimalDigits (n : Nat) : List Char := Nat.toDigits 10 n

namespace Decimal

/-- The double nearest to a decimal. Decimals of an absurd size are decided by their leading digit's
place alone, so that no huge power of ten is formed. -/
def toBinary64 (d : Decimal) : Binary64 :=
  if d.significand = 0 then .zero d.negative
  else
    let place : Int := (decimalDigits d.significand).length + d.exponent
    if 400 < place then .infinity d.negative
    else if place < -400 then .zero d.negative
    else .nearest d.negative (d.significand * Nat.pow 10 d.exponent.toNat)
      (Nat.pow 10 (-d.exponent).toNat)

/-- The reals that round to the positive double `m * 2 ^ q`, as an interval in units of
`2 ^ (q - 2)`; the ends belong to it iff the significand is even. -/
structure RoundingInterval where
  low : Nat
  value : Nat
  high : Nat
  closed : Bool

/-- The interval of reals that round to `m * 2 ^ q`. Below a power of two the spacing halves. -/
def roundingInterval (m : Nat) (q : Int) : RoundingInterval where
  low := 4 * m - if m = Binary64.fractionWeight ∧ -1074 < q then 1 else 2
  value := 4 * m
  high := 4 * m + 2
  closed := m % 2 = 0

/-- The least `k` up to the bound with `den ≤ num * 10 ^ k`. -/
def leadingZeros (num den : Nat) : Nat → Nat
  | 0 => 0
  | bound + 1 => if den ≤ num then 0 else leadingZeros (num * 10) den bound + 1

/-- The greatest `k` with `10 ^ k` at most the positive fraction. -/
def floorLog10 (num den : Nat) : Int :=
  if den ≤ num then ((decimalDigits (num / den)).length : Int) - 1
  else -(leadingZeros num den 400 : Int)

/-- The candidate `c * 10 ^ g` lies in the interval, whose unit is `num / den`. -/
def RoundingInterval.holds (i : RoundingInterval) (num den c : Nat) (g : Int) : Bool :=
  let scaled := c * Nat.pow 10 g.toNat * den
  let low := i.low * num * Nat.pow 10 (-g).toNat
  let high := i.high * num * Nat.pow 10 (-g).toNat
  if i.closed then low ≤ scaled && scaled ≤ high else low < scaled && scaled < high

/-- The point of the grid of step `10 ^ g` chosen for a double: of its two neighbours on the grid
the nearer one that lies in the interval, the even one on a tie. -/
def gridPoint (i : RoundingInterval) (num den : Nat) (g : Int) : Option Nat :=
  let top := i.value * num * Nat.pow 10 (-g).toNat
  let step := den * Nat.pow 10 g.toNat
  let below := top / step
  let order := divNearestEven top step
  let other := if order = below then below + 1 else below
  if i.holds num den order g then some order
  else if i.holds num den other g then some other
  else none

/-- The first grid, from one digit on, that has a point in the interval. -/
def firstGrid (i : RoundingInterval) (num den : Nat) (lead : Int) : Nat → Nat → Nat × Int
  | 0, n => (i.value * num / den, lead - n)
  | fuel + 1, n =>
    match gridPoint i num den (lead - n) with
    | some c => (c, lead - n)
    | none => firstGrid i num den lead fuel (n + 1)

/-- The shortest decimal that reads back as the positive double `m * 2 ^ q`. -/
def shortest (m : Nat) (q : Int) : Decimal :=
  let i := roundingInterval m q
  let num := Nat.pow 2 (q - 2).toNat
  let den := Nat.pow 2 (2 - q).toNat
  let (c, g) := firstGrid i num den (floorLog10 (i.value * num) den) 17 0
  ⟨false, c, g⟩

end Decimal

/-- Where the point and the exponent of a written number stand. -/
structure NumberLayout where
  /-- The places of the point, counted from the first digit, that are written out in full; outside
  them an exponent is written. No bounds: never an exponent. -/
  positional : Option (Int × Int)
  /-- Whether a whole number written in full ends in a point and a zero. -/
  markWhole : Bool

/-- Zeros. -/
def zeros (n : Nat) : List Char := List.replicate n '0'

/-- The digits with the point after the given number of them. -/
def NumberLayout.place (l : NumberLayout) (ds : List Char) (point : Int) : List Char :=
  let inFull := match l.positional with
    | none => true
    | some (low, high) => low ≤ point && point ≤ high
  if !inFull then
    let (first, rest) := (ds.take 1, ds.drop 1)
    let exponent := point - 1
    first ++ (if rest.isEmpty then [] else '.' :: rest) ++ ['e', if exponent < 0 then '-' else '+'] ++
      decimalDigits exponent.natAbs
  else if point ≤ 0 then '0' :: '.' :: (zeros (-point).toNat ++ ds)
  else if ds.length ≤ point.toNat then
    ds ++ zeros (point.toNat - ds.length) ++ (if l.markWhole then ['.', '0'] else [])
  else ds.take point.toNat ++ '.' :: ds.drop point.toNat

/-- Digits without the zeros at their end, and how many those were. -/
def stripZeros (ds : List Char) : List Char × Nat :=
  let kept := (ds.reverse.dropWhile (· == '0')).reverse
  (kept, ds.length - kept.length)

/-- The text of a number in a layout. -/
def Binary64.text (l : NumberLayout) (x : Binary64) : String :=
  match x.reading with
  | .nan => "NaN"
  | .infinite negative => if negative then "-inf" else "inf"
  | .finite negative m q =>
    let body :=
      if m = 0 then l.place ['0'] 1
      else
        let d := Decimal.shortest m q
        let (ds, dropped) := stripZeros (decimalDigits d.significand)
        l.place ds (ds.length + (d.exponent + dropped))
    String.ofList (if negative then '-' :: body else body)

/-- Numbers inside sentences and strings: never an exponent, no mark on whole numbers. -/
def NumberLayout.plain : NumberLayout := ⟨none, false⟩

/-- Numbers shown as a value of the wrong kind: never an exponent, whole numbers marked. -/
def NumberLayout.marked : NumberLayout := ⟨none, true⟩

/-- Numbers in a JSON document: whole numbers marked, an exponent from 1e16 up and below 1e-5. -/
def NumberLayout.json : NumberLayout := ⟨some (-4, 16), true⟩

namespace Numeral

/-- Splits off a leading sign; plus and no sign read alike. -/
def splitSign : List Char → Bool × List Char
  | '-' :: cs => (true, cs)
  | '+' :: cs => (false, cs)
  | cs => (false, cs)

/-- An optional sign and at least one digit, nothing else. -/
def readInt (cs : List Char) : Option Int :=
  let (negative, ds) := splitSign cs
  if ds.isEmpty || !ds.all isDecimalDigit then none
  else some (if negative then -digitsValue 10 ds else digitsValue 10 ds)

/-- An unsigned 64-bit count, with a plus sign at most. -/
def readUInt64 (cs : List Char) : Option UInt64 :=
  let ds := match cs with
    | '+' :: ds => ds
    | ds => ds
  if ds.isEmpty || !ds.all isDecimalDigit then none
  else
    let n := digitsValue 10 ds
    if n < bound64 then some (UInt64.ofNat n) else none

/-- The digits before and after the point and the exponent of a decimal in scientific form. -/
def decimal (negative : Bool) (whole fraction : List Char) (exponent : Int) : Decimal :=
  ⟨negative, digitsValue 10 (whole ++ fraction), exponent - fraction.length⟩

/-- An exponent mark with a signed number, or nothing at all. -/
def readExponent : List Char → Option Int
  | [] => some 0
  | c :: cs => if c = 'e' ∨ c = 'E' then readInt cs else none

/-- A number in decimal or scientific form; a point needs a digit on one of its sides. The words for
infinity and for no number are read in any case. -/
def readFloat (cs : List Char) : Option Binary64 :=
  let (negative, body) := splitSign cs
  let word := String.ofList (body.map Char.toLower)
  if word = "inf" ∨ word = "infinity" then some (.infinity negative)
  else if word = "nan" then some (if negative then .neg .nan else .nan)
  else
    let whole := body.takeWhile isDecimalDigit
    let rest := body.dropWhile isDecimalDigit
    let (fraction, rest) := match rest with
      | '.' :: r => (r.takeWhile isDecimalDigit, r.dropWhile isDecimalDigit)
      | r => ([], r)
    if whole.isEmpty && fraction.isEmpty then none
    else (readExponent rest).map fun e => (decimal negative whole fraction e).toBinary64

end Numeral

end Isolate
