import Isolate.Engine.Basic

/-!
# Frames of a command's output

The daemon sends the output of a command in frames. A frame has a head of eight bytes, which says
what the bytes after it are and how many there are.

* `Frame.encode`: a frame as bytes;
* `Frame.decode`: the frames that are complete;
* `Frame.chunk?`: the piece of output in a frame.
-/

namespace Isolate

/-- What the bytes of a frame are. -/
inductive Stream where
  | stdin
  | stdout
  | stderr
  deriving DecidableEq, Repr

/-- Bytes of one stream. -/
structure Frame where
  stream : Stream
  bytes : Bytes
  deriving DecidableEq, Repr

namespace Frame

/-- The number of a stream. -/
def streamByte : Stream → UInt8
  | .stdin => 0
  | .stdout => 1
  | .stderr => 2

/-- The stream of a number. -/
def streamOf? (b : UInt8) : Option Stream :=
  if b = 0 then some .stdin else if b = 1 then some .stdout
  else if b = 2 then some .stderr else none

/-- Four bytes for a number, the most significant first. -/
def lengthBytes (n : Nat) : Bytes :=
  [UInt8.ofNat (n / 16777216), UInt8.ofNat (n / 65536), UInt8.ofNat (n / 256), UInt8.ofNat n]

/-- A frame as bytes. -/
def encode (f : Frame) : Bytes :=
  streamByte f.stream :: 0 :: 0 :: 0 :: (lengthBytes f.bytes.length ++ f.bytes)

/-- The number of four bytes. -/
def lengthOf (a b c d : UInt8) : Nat :=
  ((a.toNat * 256 + b.toNat) * 256 + c.toNat) * 256 + d.toNat

/-- The complete frames at the front of some bytes, at most `fuel` of them. -/
def decodeFrom : Nat → Bytes → List Frame
  | fuel + 1, kind :: _ :: _ :: _ :: a :: b :: c :: d :: rest =>
    let n := lengthOf a b c d
    match streamOf? kind with
    | some stream =>
      if rest.length < n then []
      else ⟨stream, rest.take n⟩ :: decodeFrom fuel (rest.drop n)
    | none => []
  | _, _ => []

/-- The complete frames at the front of some bytes. -/
def decode (bytes : Bytes) : List Frame := decodeFrom (bytes.length / 8 + 1) bytes

/-- The piece of output in a frame; what a command reads is none. -/
def chunk? (f : Frame) : Option Chunk :=
  match f.stream with
  | .stdin => none
  | .stdout => some (.stdout f.bytes)
  | .stderr => some (.stderr f.bytes)

end Frame

end Isolate
