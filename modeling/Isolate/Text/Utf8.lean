/-!
# Bytes and text

Text is stored in UTF-8. Decoding is a machine that takes one byte at a time:

* `Utf8.encode`: the bytes of a text;
* `Utf8.Decoder.push`, `Utf8.Decoder.finish`: the machine, which writes U+FFFD for every maximal
  part of an ill-formed sequence;
* `Utf8.decodeLossy`: what the machine makes of a whole byte string;
* `Utf8.decode?`: the text of a well-formed byte string.
-/

namespace Isolate

/-- A byte string. -/
abbrev Bytes := List UInt8

namespace Utf8

/-- The bytes of a text. -/
def encode (s : String) : Bytes := s.toList.flatMap String.utf8EncodeChar

/-- The character that stands for what could not be decoded. -/
def replacement : Char := '\uFFFD'

/-- Where the machine stands: between characters, or inside one that still needs bytes, the next of
them within bounds. -/
inductive Position where
  | between
  | inside (missing : Nat) (low high : UInt8) (value : Nat)
  deriving DecidableEq, Repr

/-- The decoding machine: its position, the characters read so far in reverse, and whether all of
the input was well formed. -/
structure Decoder where
  position : Position
  reversed : List Char
  wellFormed : Bool
  deriving Repr

namespace Decoder

/-- The machine before the first byte. -/
def start : Decoder := ⟨.between, [], true⟩

/-- Writes a character. -/
def emit (d : Decoder) (c : Char) : Decoder := { d with reversed := c :: d.reversed }

/-- Writes the replacement character for an ill-formed part. -/
def fault (d : Decoder) : Decoder := ⟨.between, replacement :: d.reversed, false⟩

/-- Waits for so many more bytes. -/
def await (d : Decoder) (missing : Nat) (low high : UInt8) (value : Nat) : Decoder :=
  { d with position := .inside missing low high value }

/-- Takes the first byte of a character. The bounds on the second byte exclude overlong forms,
surrogates and what lies beyond the last code point. -/
def lead (d : Decoder) (b : UInt8) : Decoder :=
  if b < 0x80 then d.emit (Char.ofNat b.toNat)
  else if b < 0xC2 then d.fault
  else if b < 0xE0 then d.await 1 0x80 0xBF (b.toNat - 0xC0)
  else if b = 0xE0 then d.await 2 0xA0 0xBF 0
  else if b = 0xED then d.await 2 0x80 0x9F 13
  else if b < 0xF0 then d.await 2 0x80 0xBF (b.toNat - 0xE0)
  else if b = 0xF0 then d.await 3 0x90 0xBF 0
  else if b < 0xF4 then d.await 3 0x80 0xBF (b.toNat - 0xF0)
  else if b = 0xF4 then d.await 3 0x80 0x8F 4
  else d.fault

/-- Takes one byte. A byte that cannot continue the character at hand ends it as ill formed and is
looked at afresh. -/
def push (d : Decoder) (b : UInt8) : Decoder :=
  match d.position with
  | .between => d.lead b
  | .inside missing low high value =>
    if low ≤ b ∧ b ≤ high then
      let value := value * 64 + (b.toNat - 0x80)
      if missing ≤ 1 then { d with position := .between, reversed := Char.ofNat value :: d.reversed }
      else d.await (missing - 1) 0x80 0xBF value
    else d.fault.lead b

/-- Ends the input; a character that lacks bytes is ill formed. -/
def finish (d : Decoder) : Decoder :=
  match d.position with
  | .between => d
  | .inside .. => d.fault

/-- The text written so far. -/
def text (d : Decoder) : List Char := d.reversed.reverse

end Decoder

/-- The machine after a whole byte string. -/
def decode (bytes : Bytes) : Decoder := (bytes.foldl Decoder.push .start).finish

/-- The text of a byte string, with U+FFFD for every maximal part of an ill-formed sequence. -/
def decodeLossy (bytes : Bytes) : String := String.ofList (decode bytes).text

/-- The text of a well-formed byte string. -/
def decode? (bytes : Bytes) : Option String :=
  let d := decode bytes
  if d.wellFormed then some (String.ofList d.text) else none

end Utf8

end Isolate
