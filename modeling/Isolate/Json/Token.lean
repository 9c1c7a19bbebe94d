import Isolate.Data

/-!
# The tokens of JSON

Blanks, words, strings and numbers, each read off the front of a text:

* `Json.skipBlanks`, `Json.expectWord`;
* `Json.readString`, after the opening quote, and `Json.passString` for strings that nobody looks at;
* `Json.readNumber` and `Json.passNumber`.

An integer is a numeral without point and exponent that fits 64 bits; minus zero is none.
-/

namespace Isolate.Json

/-- Why a document is refused. -/
inductive Fault where
  /-- It is no JSON. -/
  | grammar
  /-- It is the beginning of a document and ends too early. -/
  | cutOff
  /-- It is JSON of another shape than wanted. -/
  | shape
  deriving DecidableEq, Repr

/-- The fault of a text that goes on with the wrong character, or not at all. -/
def stray (cs : List Char) : Fault := if cs.isEmpty then .cutOff else .grammar

/-- The four characters that may stand between tokens. -/
def isBlank (c : Char) : Bool := c = ' ' ∨ c = '\n' ∨ c = '\t' ∨ c = '\r'

/-- The text from the next token on. -/
def skipBlanks (cs : List Char) : List Char := cs.dropWhile isBlank

/-- Reads exactly the given characters. -/
def expectWord : List Char → List Char → Except Fault (List Char)
  | [], cs => .ok cs
  | w :: ws, c :: cs => if w = c then expectWord ws cs else .error .grammar
  | _ :: _, [] => .error .cutOff

/-- The fault of an escape by number that lacks digits. Characters beyond ASCII count as several. -/
def cutEscape (cs : List Char) : Fault :=
  if (cs.map Char.utf8Size).foldl (· + ·) 0 < 4 then .cutOff else .grammar

/-- The value of four hexadecimal digits. -/
def hexQuad? (a b c d : Char) : Option Nat := do
  let a ← hexDigitValue? a
  let b ← hexDigitValue? b
  let c ← hexDigitValue? c
  let d ← hexDigitValue? d
  pure (a * 4096 + b * 256 + c * 16 + d)

/-- The character of an escape other than one by number. -/
def simpleEscape? : Char → Option Char
  | '"' => some '"'
  | '\\' => some '\\'
  | '/' => some '/'
  | 'b' => some '\x08'
  | 'f' => some '\x0c'
  | 'n' => some '\n'
  | 'r' => some '\r'
  | 't' => some '\t'
  | _ => none

/-- The first half of a character beyond 16 bits. -/
def isHighSurrogate (n : Nat) : Bool := 0xD800 ≤ n ∧ n < 0xDC00

/-- The second half of a character beyond 16 bits. -/
def isLowSurrogate (n : Nat) : Bool := 0xDC00 ≤ n ∧ n < 0xE000

/-- The character of two halves. -/
def joinSurrogates (high low : Nat) : Char :=
  Char.ofNat (0x10000 + (high - 0xD800) * 0x400 + (low - 0xDC00))

/-- A character that may stand in a string as it is. -/
def isUnescaped (c : Char) : Bool := 0x20 ≤ c.toNat ∧ c ≠ '"' ∧ c ≠ '\\'

/-- Reads a string after its opening quote, where `read` holds the characters so far in reverse.
Half a character beyond 16 bits is refused. -/
def readStringFrom (read : List Char) : List Char → Except Fault (String × List Char)
  | '"' :: cs => .ok (String.ofList read.reverse, cs)
  | '\\' :: 'u' :: a :: b :: c :: d :: cs =>
    match hexQuad? a b c d with
    | none => .error .grammar
    | some n =>
      if isHighSurrogate n then
        match cs with
        | '\\' :: 'u' :: a' :: b' :: c' :: d' :: cs' =>
          match hexQuad? a' b' c' d' with
          | some m =>
            if isLowSurrogate m then readStringFrom (joinSurrogates n m :: read) cs'
            else .error .grammar
          | none => .error .grammar
        | '\\' :: 'u' :: cs => .error (cutEscape cs)
        | ['\\'] => .error .cutOff
        | cs => .error (stray cs)
      else if isLowSurrogate n then .error .grammar
      else readStringFrom (Char.ofNat n :: read) cs
  | '\\' :: 'u' :: cs => .error (cutEscape cs)
  | '\\' :: c :: cs =>
    match simpleEscape? c with
    | some c => readStringFrom (c :: read) cs
    | none => .error .grammar
  | ['\\'] => .error .cutOff
  | c :: cs => if isUnescaped c then readStringFrom (c :: read) cs else .error .grammar
  | [] => .error .cutOff
termination_by cs => cs.length

/-- Reads a string after its opening quote. -/
def readString (cs : List Char) : Except Fault (String × List Char) := readStringFrom [] cs

/-- Passes over a string after its opening quote; halves of characters are not looked at. -/
def passString : List Char → Except Fault (List Char)
  | '"' :: cs => .ok cs
  | '\\' :: 'u' :: a :: b :: c :: d :: cs =>
    if (hexQuad? a b c d).isSome then passString cs else .error .grammar
  | '\\' :: 'u' :: cs => .error (cutEscape cs)
  | '\\' :: c :: cs => if (simpleEscape? c).isSome then passString cs else .error .grammar
  | ['\\'] => .error .cutOff
  | c :: cs => if isUnescaped c then passString cs else .error .grammar
  | [] => .error .cutOff
termination_by cs => cs.length

/-- The parts of a numeral. -/
structure Numeral where
  negative : Bool
  whole : List Char
  fraction : Option (List Char)
  exponent : Option Int
  deriving DecidableEq, Repr

/-- Reads at least one digit. -/
def readDigits (cs : List Char) : Except Fault (List Char × List Char) :=
  let ds := cs.takeWhile isDecimalDigit
  if ds.isEmpty then .error (stray cs) else .ok (ds, cs.dropWhile isDecimalDigit)

/-- Reads the digits before the point; a zero stands alone. -/
def readWhole : List Char → Except Fault (List Char × List Char)
  | '0' :: cs =>
    if (cs.head?.map isDecimalDigit).getD false then .error .grammar else .ok (['0'], cs)
  | cs => readDigits cs

/-- Reads a point and digits, if there is a point. -/
def readFraction : List Char → Except Fault (Option (List Char) × List Char)
  | '.' :: cs => do
    let (ds, cs) ← readDigits cs
    pure (some ds, cs)
  | cs => .ok (none, cs)

/-- Reads an exponent, if there is one. -/
def readExponent : List Char → Except Fault (Option Int × List Char)
  | c :: cs =>
    if c = 'e' ∨ c = 'E' then do
      let (negative, cs) := Isolate.Numeral.splitSign cs
      let (ds, cs) ← readDigits cs
      let n : Int := digitsValue 10 ds
      pure (some (if negative then -n else n), cs)
    else .ok (none, c :: cs)
  | [] => .ok (none, [])

/-- Reads a numeral. -/
def readNumeral (cs : List Char) : Except Fault (Numeral × List Char) := do
  let (negative, cs) := match cs with
    | '-' :: cs => (true, cs)
    | cs => (false, cs)
  let (whole, cs) ← readWhole cs
  let (fraction, cs) ← readFraction cs
  let (exponent, cs) ← readExponent cs
  pure (⟨negative, whole, fraction, exponent⟩, cs)

/-- The integer that a numeral writes, if it writes one that fits 64 bits. -/
def Numeral.int? (n : Numeral) : Option Int :=
  if n.fraction.isSome || n.exponent.isSome then none
  else
    let value := digitsValue 10 n.whole
    if n.negative then if value = 0 ∨ bound63 < value then none else some (-value)
    else if value < bound64 then some value else none

/-- The number of the digits that were taken, and the digits that were not. The first digit that does
not fit 64 bits any more ends it. -/
def takeDigits (n : Nat) : List Char → Nat × List Char
  | [] => (n, [])
  | d :: ds =>
    let next := 10 * n + digitsValue 10 [d]
    if next < bound64 then takeDigits next ds else (n, d :: ds)

/-- The power of ten that is nearest to a double. -/
def powerOfTen (n : Nat) : Binary64 := (Decimal.mk false 1 n).toBinary64

/-- The greatest exponent of a power of ten that is a double. -/
def maxPower : Nat := 308

/-- A double times a power of ten, rounded after each of the divisions that it takes. It must not
become infinite. -/
def scale : Nat → Binary64 → Int → Option Binary64
  | 0, x, _ => some x
  | fuel + 1, x, exponent =>
    if exponent.natAbs ≤ maxPower then
      if exponent < 0 then some (x.div (powerOfTen exponent.natAbs))
      else
        let x := x.mul (powerOfTen exponent.natAbs)
        if x.isFinite then some x else none
    else if x = .zero false then some x
    else if 0 ≤ exponent then none
    else scale fuel (x.div (powerOfTen maxPower)) (exponent + maxPower)

/-- The double of a numeral: the digits that fit 64 bits as a double, times a power of ten. It need
not be the one nearest to the numeral. One beyond the largest double is refused. -/
def Numeral.float? (n : Numeral) : Option Binary64 :=
  let fraction := n.fraction.getD []
  let (m, left) := takeDigits 0 n.whole
  let (m, dropped) := takeDigits m fraction
  let exponent : Int := n.exponent.getD 0 + left.length - (fraction.length - dropped.length : Nat)
  -- three divisions bring every number of 64 bits down to zero
  (scale 4 (.ofInt m) exponent).map fun x => if n.negative then x.neg else x

/-- The value of a numeral, where those that are no integers are read in a given way. -/
def Numeral.value (float? : Numeral → Option Binary64) (n : Numeral) : Except Fault Data :=
  match n.int? with
  | some i => .ok (.int i)
  | none =>
    match float? n with
    | some x => .ok (.float x)
    | none => .error .grammar

/-- Reads a number. -/
def readNumber (float? : Numeral → Option Binary64) (cs : List Char) :
    Except Fault (Data × List Char) := do
  let (n, cs) ← readNumeral cs
  let value ← n.value float?
  pure (value, cs)

/-- Passes over a number of any size. One that is not complete is refused as one that is wrong. -/
def passNumber (cs : List Char) : Except Fault (List Char) :=
  match readNumeral cs with
  | .ok (_, cs) => .ok cs
  | .error _ => .error .grammar

end Isolate.Json
