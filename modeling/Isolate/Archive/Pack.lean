import Isolate.Archive.Name

/-!
# Packing files

* `Archive.File`: a file to be packed;
* `Archive.entry`: the blocks of one file, preceded by an entry that holds its name if the name does
  not fit the header;
* `Archive.pack`: the entries of several files and two blocks of zeros at the end.
-/

namespace Isolate.Archive

/-- A file to be packed. -/
structure File where
  name : String
  data : Bytes
  deriving DecidableEq, Repr

/-- A file whose name cannot be stored, with as much of the name as was stored. -/
structure PackError where
  fault : NameFault
  stored : String
  deriving DecidableEq, Repr

/-- The wording of a failure to pack. -/
def PackError.message (e : PackError) : String :=
  e.fault.message ++ " when setting path for " ++ e.stored

/-- The mode of every entry: the owner may read and write, others may read. -/
def fileMode : Nat := 420

/-- Data filled up with zeros to whole blocks. -/
def padded (data : Bytes) : Bytes :=
  data ++ nulls ((blockSize - data.length % blockSize) % blockSize)

/-- The characters as bytes. -/
def nameBytes (cs : List Char) : Bytes := cs.flatMap String.utf8EncodeChar

/-- The name of an entry whose data is a name. -/
def longNameMark : String := "././@LongLink"

/-- The blocks of an entry that holds the name of the next one, with a zero byte after it. -/
def longNameEntry (name : Bytes) : Bytes :=
  let data := name ++ [0]
  Header.block ⟨Utf8.encode longNameMark, fileMode, data.length, 0, .longName⟩ ++ padded data

/-- The blocks of a file whose header holds the given name. -/
def fileEntry (modified : Nat) (stored : List Char) (data : Bytes) : Bytes :=
  Header.block ⟨nameBytes stored, fileMode, data.length, modified, .file⟩ ++ padded data

/-- A fault and what was stored, as an error of the file. -/
def packError (e : NameFault × List Char) : PackError := ⟨e.1, String.ofList e.2⟩

/-- The blocks of one file. A name that cannot be stored and takes at least as many bytes as the
name field goes into an entry of its own, and the header holds its beginning. -/
def entry (modified : Nat) (f : File) : Except PackError Bytes :=
  let name := f.name.toList
  match store false name with
  | .ok stored => .ok (fileEntry modified stored f.data)
  | .error e =>
    if byteCount name < nameSize then .error (packError e)
    else match store true (wholePrefix nameSize name) with
      | .ok stored => .ok (longNameEntry (nameBytes name) ++ fileEntry modified stored f.data)
      | .error e => .error (packError e)

/-- The archive of several files, in the given order. -/
def pack (modified : Nat) (files : List File) : Except PackError Bytes := do
  let entries ← files.mapM (entry modified)
  pure (entries.flatten ++ nulls (2 * blockSize))

end Isolate.Archive
