import Isolate.Number.Width

/-!
# Double-precision numbers, read exactly

A double-precision number is kept as its 64-bit interchange pattern. All arithmetic on it goes
through its exact reading, a significand times a power of two:

* `Binary64.reading`: the exact value of a pattern, an infinity, or no number;
* `Binary64.nearest`: the pattern nearest to a fraction, ties to the even significand;
* `Binary64.mul`, `Binary64.div`: the operations of finite numbers;
* `Binary64.isFinite`, `Binary64.isPositive`: the tests made on limits;
* `Binary64.toUInt64Saturating`: rounding to a 64-bit count.
-/

namespace Isolate

/-- A fraction rounded to the nearest natural number; a half goes to the even neighbour. -/
def divNearestEven (num den : Nat) : Nat :=
  let q := num / den
  let r := num % den
  if 2 * r < den then q
  else if den < 2 * r then q + 1
  else q + q % 2

/-- A fraction rounded to the nearest natural number; a half goes up. -/
def divNearestUp (num den : Nat) : Nat := (2 * num + den) / (2 * den)

/-- A double-precision number, given by its interchange pattern. -/
structure Binary64 where
  bits : UInt64
  deriving DecidableEq, Repr, Inhabited

namespace Binary64

/-- What a pattern stands for. -/
inductive Reading where
  /-- Plus or minus the significand times two to the exponent. -/
  | finite (negative : Bool) (significand : Nat) (exponent : Int)
  | infinite (negative : Bool)
  | nan
  deriving DecidableEq, Repr

/-- The weight of the lowest exponent bit, two to the fifty-second. A significand of a normal number
has a bit of this weight that is not stored. -/
def fractionWeight : Nat := 4503599627370496

/-- The sign bit is set. -/
def signBit (x : Binary64) : Bool := bound63 ≤ x.bits.toNat

/-- The eleven exponent bits. -/
def exponentField (x : Binary64) : Nat := x.bits.toNat / fractionWeight % 2048

/-- The fifty-two fraction bits. -/
def fractionField (x : Binary64) : Nat := x.bits.toNat % fractionWeight

/-- The exact value of a pattern. -/
def reading (x : Binary64) : Reading :=
  let e := x.exponentField
  let f := x.fractionField
  if e = 2047 then
    if f = 0 then .infinite x.signBit else .nan
  else if e = 0 then .finite x.signBit f (-1074)
  else .finite x.signBit (fractionWeight + f) (e - 1075)

/-- The pattern with the given sign and the given 63 lower bits. -/
def ofMagnitude (negative : Bool) (magnitude : Nat) : Binary64 :=
  ⟨UInt64.ofNat (magnitude + if negative then bound63 else 0)⟩

/-- The lower bits of infinity, just above those of the largest finite number. -/
def infinityMagnitude : Nat := 2047 * fractionWeight

/-- Zero with a sign. -/
def zero (negative : Bool) : Binary64 := ofMagnitude negative 0

/-- Infinity with a sign. -/
def infinity (negative : Bool) : Binary64 := ofMagnitude negative infinityMagnitude

/-- The pattern used for the absence of a number. -/
def nan : Binary64 := ofMagnitude false (infinityMagnitude + fractionWeight / 2)

/-- The greatest `k` with `2 ^ k` at most the positive fraction. -/
def floorLog2 (num den : Nat) : Int :=
  let k : Int := (num.log2 : Int) - den.log2
  if den * Nat.pow 2 k.toNat ≤ num * Nat.pow 2 (-k).toNat then k else k - 1

/-- The double nearest to a fraction; a tie goes to the even significand and what lies beyond the
largest double becomes infinite. -/
def nearest (negative : Bool) (num den : Nat) : Binary64 :=
  if num = 0 then zero negative
  else
    let e := max (-1074) (floorLog2 num den - 52)
    let q := divNearestEven (num * Nat.pow 2 (-e).toNat) (den * Nat.pow 2 e.toNat)
    ofMagnitude negative (min infinityMagnitude ((e + 1074).toNat * fractionWeight + q))

/-- The double nearest to an integer. -/
def ofInt (n : Int) : Binary64 := nearest (n < 0) n.natAbs 1

/-- The number with the other sign. -/
def neg (x : Binary64) : Binary64 := ⟨x.bits ^^^ 0x8000000000000000⟩

/-- The product of two finite numbers, rounded; others have none. -/
def mul (x y : Binary64) : Binary64 :=
  match x.reading, y.reading with
  | .finite s m e, .finite t n f =>
    let d := e + f
    nearest (s != t) (m * n * Nat.pow 2 d.toNat) (Nat.pow 2 (-d).toNat)
  | _, _ => nan

/-- The quotient of two finite numbers, rounded; others have none, nor has a division by zero. -/
def div (x y : Binary64) : Binary64 :=
  match x.reading, y.reading with
  | .finite s m e, .finite t n f =>
    let d := e - f
    if n = 0 then nan
    else nearest (s != t) (m * Nat.pow 2 d.toNat) (n * Nat.pow 2 (-d).toNat)
  | _, _ => nan

/-- Neither infinite nor the absence of a number. -/
def isFinite (x : Binary64) : Bool :=
  match x.reading with
  | .finite .. => true
  | _ => false

/-- Greater than zero. -/
def isPositive (x : Binary64) : Bool :=
  match x.reading with
  | .finite neg m _ => !neg && m != 0
  | .infinite neg => !neg
  | .nan => false

/-- The numerator of a significand times a power of two. -/
def numerator (m : Nat) (e : Int) : Nat := m * Nat.pow 2 e.toNat

/-- The denominator of a significand times a power of two. -/
def denominator (e : Int) : Nat := Nat.pow 2 (-e).toNat

/-- The number rounded to a 64-bit count, a half away from zero; what is below zero or no number
counts as zero and what is too large as the greatest count. -/
def toUInt64Saturating (x : Binary64) : UInt64 :=
  match x.reading with
  | .finite false m e =>
    -- a significand with a positive exponent above 64 is already out of range
    if m = 0 then 0
    else if 64 < e then UInt64.ofNat (bound64 - 1)
    else UInt64.ofNat (min (bound64 - 1) (divNearestUp (numerator m e) (denominator e)))
  | .infinite false => UInt64.ofNat (bound64 - 1)
  | _ => 0

end Binary64

end Isolate
