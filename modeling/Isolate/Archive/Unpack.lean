import Isolate.Archive.Pack

/-!
# Reading archives

The reader follows the rules of the GNU layout and shares nothing with the packing but the fields
of a header:

* `Archive.entries`: the entries up to the first block of zeros, and what follows them;
* `Archive.files`: the files of an archive, where an entry that holds a name gives it to the next.
-/

namespace Isolate.Archive

/-- An entry as it stands in the archive. -/
structure Entry where
  header : Header
  magic : Bytes
  checksumHolds : Bool
  data : Bytes
  deriving DecidableEq, Repr

/-- How many bytes the blocks of so much data take. -/
def paddedSize (size : Nat) : Nat := (size + (blockSize - 1)) / blockSize * blockSize

/-- The entries up to the first block of zeros, and the rest from there on. At most `fuel` entries
are read. -/
def entriesFrom : Nat → Bytes → List Entry × Bytes
  | 0, bytes => ([], bytes)
  | fuel + 1, bytes =>
    let block := bytes.take blockSize
    if block.length < blockSize || block.all (· == 0) then ([], bytes)
    else
      let header := Header.ofBlock block
      let body := bytes.drop blockSize
      let entry : Entry :=
        ⟨header, slice block 257 8, checksumHolds block, body.take header.size⟩
      let (entries, rest) := entriesFrom fuel (body.drop (paddedSize header.size))
      (entry :: entries, rest)

/-- The entries of an archive, and what follows them. -/
def entries (archive : Bytes) : List Entry × Bytes :=
  entriesFrom (archive.length / blockSize + 1) archive

/-- The files among entries; `name` is the name given to the next one. -/
def filesFrom : Option Bytes → List Entry → List (Bytes × Entry)
  | _, [] => []
  | name, e :: es =>
    match e.header.kind with
    | .longName => filesFrom (some e.data.dropLast) es
    | _ => (name.getD e.header.name, e) :: filesFrom none es

/-- The files of an archive with their names. -/
def files (archive : Bytes) : List (Bytes × Entry) := filesFrom none (entries archive).1

end Isolate.Archive
