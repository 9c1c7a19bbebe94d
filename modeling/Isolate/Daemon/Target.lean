import Isolate.Text.Utf8

/-!
# The targets of requests

The names in the path of a request are taken as they are, so that they may change what the request is
about:

* `Daemon.Target`: the path and the query of a request;
* `Daemon.Target.ofReference`: what a path means once it is resolved at the root;
* `Daemon.formEncoded`: a text as part of an encoded form.
-/

namespace Isolate.Daemon

/-- A digit of a number to base 16, in capitals. -/
def hexDigit (n : Nat) : Char := ((Nat.toDigits 16 n).headD '0').toUpper

/-- A byte as a percent sign with two digits. -/
def percentByte (b : UInt8) : List Char :=
  ['%', hexDigit (b.toNat / 16), hexDigit (b.toNat % 16)]

/-- The bytes of a character that cannot stand for itself. -/
def percentChar (c : Char) : List Char :=
  (Utf8.encode (String.singleton c)).flatMap percentByte

/-- A byte that stands for itself in an encoded form. -/
def isUnreserved (b : UInt8) : Bool :=
  let c := Char.ofNat b.toNat
  c.isAlphanum || "*-._".toList.contains c

/-- A byte of an encoded form: a blank is a plus, and what does not stand for itself is a percent
sign with two digits. -/
def formByte (b : UInt8) : List Char :=
  if isUnreserved b then [Char.ofNat b.toNat] else if b = 0x20 then ['+'] else percentByte b

/-- A text as part of an encoded form. -/
def formEncoded (s : String) : String := String.ofList ((Utf8.encode s).flatMap formByte)

/-- The path and the query of a request. -/
structure Target where
  path : String
  query : String
  deriving DecidableEq, Repr

namespace Target

/-- A printed character of ASCII. -/
def isPrinted (c : Char) : Bool := 0x20 < c.toNat && c.toNat < 0x7F

/-- A character that stands for itself in a path. -/
def isPathChar (c : Char) : Bool :=
  isPrinted c && !("\"#<>?\x7b\x7d".toList.contains c) && c.toNat != 0x60

/-- A character that stands for itself in a query. -/
def isQueryChar (c : Char) : Bool := isPrinted c && !("\"#<>".toList.contains c)

/-- A text in which some characters stand for themselves. -/
def encode (isPlain : Char → Bool) (cs : List Char) : List Char :=
  cs.flatMap fun c => if isPlain c then [c] else percentChar c

/-- The parts of a path. -/
def segments (cs : List Char) : List (List Char) :=
  cs.foldr (fun c parts =>
    if c = '/' then [] :: parts
    else match parts with
      | part :: parts => (c :: part) :: parts
      | [] => [[c]]) [[]]

/-- A part of a path with its encoded dots written out. -/
def plainDots : List Char → List Char
  | '%' :: '2' :: 'e' :: cs => '.' :: plainDots cs
  | '%' :: '2' :: 'E' :: cs => '.' :: plainDots cs
  | c :: cs => c :: plainDots cs
  | [] => []

/-- The parts of a path, the last one first, without the dots that mean the place itself and the
places above. There is no place above the root. -/
def resolve (above : List (List Char)) : List (List Char) → List (List Char)
  | [] => above
  | part :: parts =>
    let dots := plainDots part
    if dots = ['.', '.'] then resolve (if parts.isEmpty then [] :: above.drop 1 else above.drop 1) parts
    else if dots = ['.'] then resolve (if parts.isEmpty then [] :: above else above) parts
    else resolve (part :: above) parts

/-- What a path means once it is resolved at the root: tabs and ends of lines in it do not count, a
question mark begins a query, and what follows a number sign is dropped. -/
def ofReference (reference : String) : Target :=
  let atEnds := reference.toList.reverse.dropWhile (fun c => c.toNat ≤ 0x20)
  let cs := atEnds.reverse.filter fun c => c != '\t' && c != '\n' && c != '\r'
  let cs := cs.takeWhile (· != '#')
  let path := (cs.takeWhile (· != '?')).drop 1
  let query := (cs.dropWhile (· != '?')).drop 1
  let parts := (resolve [] (segments (encode isPathChar path))).reverse
  ⟨String.ofList (parts.flatMap ('/' :: ·)), String.ofList (encode isQueryChar query)⟩

end Target

end Isolate.Daemon
