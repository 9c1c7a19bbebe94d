import Isolate.Text.Utf8

/-!
# Archive header blocks

An archive is a sequence of 512-byte blocks in the GNU layout. Every entry starts with a header
block:

* `Archive.Header`: the fields that vary between entries;
* `Archive.Header.block`: its block, with the checksum filled in;
* `Archive.Header.ofBlock`: the fields of a block;
* `Archive.checksumHolds`: the checksum of a block is right.
-/

namespace Isolate.Archive

/-- The size of a block. -/
def blockSize : Nat := 512

/-- The size of the name field of a header. -/
def nameSize : Nat := 100

/-- Zero bytes. -/
def nulls (n : Nat) : Bytes := List.replicate n 0

/-- A field of fixed size: the bytes, cut or filled up with zeros. -/
def field (size : Nat) (bytes : Bytes) : Bytes := bytes.take size ++ nulls (size - bytes.length)

/-- The lowest digits of a number in the given base, the most significant first. -/
def lowDigits (base : Nat) : Nat → Nat → List Nat
  | 0, _ => []
  | count + 1, n => lowDigits base count (n / base) ++ [n % base]

/-- A number in octal digits that fill a field, but for a zero byte at the end. -/
def octalField (size n : Nat) : Bytes :=
  (lowDigits 8 (size - 1) n).map (fun d => UInt8.ofNat (48 + d)) ++ [0]

/-- A number in octal digits, or in binary with the first bit set if they do not suffice. -/
def numberField (size n : Nat) : Bytes :=
  if n < Nat.pow 8 (size - 1) then octalField size n
  else match (lowDigits 256 size n).map UInt8.ofNat with
    | [] => []
    | b :: bs => (b ||| 0x80) :: bs

/-- The number in a field. -/
def readNumber (bytes : Bytes) : Nat :=
  match bytes with
  | [] => 0
  | b :: bs =>
    if 0x80 ≤ b then bs.foldl (fun n c => n * 256 + c.toNat) (b &&& 0x7f).toNat
    else (b :: bs).foldl (fun n c => if 48 ≤ c ∧ c < 56 then n * 8 + (c.toNat - 48) else n) 0

/-- What an entry is. -/
inductive Kind where
  | file
  /-- Its data is the name of the next entry. -/
  | longName
  | other (flag : UInt8)
  deriving DecidableEq, Repr

/-- The flag of a kind. -/
def Kind.flag : Kind → UInt8
  | .file => 48
  | .longName => 76
  | .other flag => flag

/-- The kind of a flag; a zero byte also marks a file. -/
def Kind.ofFlag (flag : UInt8) : Kind :=
  if flag = 48 ∨ flag = 0 then .file else if flag = 76 then .longName else .other flag

/-- The owner and the group of an entry: number zero for both if it holds a name; files leave them
out. -/
def Kind.owners : Kind → Bytes
  | .longName => octalField 8 0 ++ octalField 8 0
  | _ => nulls 16

/-- The fields of a header that differ between entries. -/
structure Header where
  name : Bytes
  mode : Nat
  size : Nat
  /-- Seconds since the epoch. -/
  modified : Nat
  kind : Kind
  deriving DecidableEq, Repr

/-- The eight bytes that mark the GNU layout. -/
def magic : Bytes := [117, 115, 116, 97, 114, 32, 32, 0]

/-- The sum of the bytes of a block. -/
def byteSum (bytes : Bytes) : Nat := bytes.foldl (fun n b => n + b.toNat) 0

/-- The fields before the checksum: name, mode, owner, group, size and time. -/
def Header.front (h : Header) : Bytes :=
  field nameSize h.name ++ octalField 8 h.mode ++ h.kind.owners ++ numberField 12 h.size ++
    numberField 12 h.modified

/-- The fields after the checksum: kind, link name, magic and the rest, which is not used. -/
def Header.back (h : Header) : Bytes := h.kind.flag :: (nulls 100 ++ magic ++ nulls 247)

/-- The header block. The checksum counts its own field as blanks. -/
def Header.block (h : Header) : Bytes :=
  let sum := byteSum h.front + 8 * 32 + byteSum h.back
  h.front ++ octalField 8 sum ++ h.back

/-- Part of a block. -/
def slice (bytes : Bytes) (start size : Nat) : Bytes := (bytes.drop start).take size

/-- The fields of a header block. -/
def Header.ofBlock (block : Bytes) : Header where
  name := (slice block 0 nameSize).takeWhile (· != 0)
  mode := readNumber (slice block 100 8)
  size := readNumber (slice block 124 12)
  modified := readNumber (slice block 136 12)
  kind := .ofFlag ((block[156]?).getD 0)

/-- The checksum of a block counts its bytes, with blanks in its own place. -/
def checksumHolds (block : Bytes) : Bool :=
  readNumber (slice block 148 8) = byteSum (block.take 148) + 8 * 32 + byteSum (block.drop 156)

end Isolate.Archive
