import Isolate.Toml.Scalar
import Isolate.Toml.Table

/-!
# Reading TOML documents

* `Toml.readValue`: a value, which may be a list or a table in braces;
* `Toml.read`: the tree of a document.
-/

namespace Isolate.Toml

/-- Passes over a comment up to the end of its line. -/
def skipComment (cs : List Char) : Option (List Char) :=
  match cs with
  | '#' :: cs =>
    let rest := cs.dropWhile (fun c => !isControl c)
    if rest.isEmpty || (newline? rest).isSome then some rest else none
  | cs => some cs

/-- Passes over blanks, comments and ends of lines. -/
def skipLines : Nat → List Char → Option (List Char)
  | 0, _ => none
  | fuel + 1, cs => do
    let cs ← skipComment (skipBlanks cs)
    match newline? cs with
    | some cs => skipLines fuel cs
    | none => some cs

/-- Passes over all that may stand between the parts of a list. -/
def skipFiller (cs : List Char) : Option (List Char) := skipLines (cs.length + 1) cs

mutual

/-- Reads a value in which brackets nest to the given depth at most. -/
def readValue (depth : Nat) : Nat → List Char → Option (Data × List Char)
  | 0, _ => none
  | fuel + 1, cs =>
    match cs with
    | '[' :: cs =>
      if depth = 0 then none
      else do
        let cs ← skipFiller cs
        let (items, cs) ← readItems (depth - 1) fuel cs
        some (.list items, cs)
    | '{' :: cs =>
      if depth = 0 then none
      else do
        let cs ← skipFiller cs
        let (entries, cs) ← readEntries (depth - 1) fuel [] cs
        some (entries.toData, cs)
    | c :: _ =>
      if c = '"' ∨ c = '\'' then (readString true cs).map fun (s, cs) => (.text s, cs)
      else readWord cs
    | [] => none

/-- Reads the items of a list up to its closing bracket. -/
def readItems (depth : Nat) : Nat → List Char → Option (List Data × List Char)
  | 0, _ => none
  | fuel + 1, cs =>
    match cs with
    | ']' :: cs => some ([], cs)
    | _ => do
      let (item, cs) ← readValue depth fuel cs
      match ← skipFiller cs with
      | ',' :: cs => do
        let cs ← skipFiller cs
        let (items, cs) ← readItems depth fuel cs
        some (item :: items, cs)
      | ']' :: cs => some ([item], cs)
      | _ => none

/-- Reads the entries of a table in braces up to its closing brace. -/
def readEntries (depth : Nat) : Nat → Entries → List Char → Option (Entries × List Char)
  | 0, _, _ => none
  | fuel + 1, es, cs =>
    match cs with
    | '}' :: cs => some (es, cs)
    | _ => do
      let (key, cs) ← readKey cs
      let cs ← expectChar '=' cs
      let (value, cs) ← readValue depth fuel (skipBlanks cs)
      let es ← es.define [] key value
      match ← skipFiller cs with
      | ',' :: cs => do
        let cs ← skipFiller cs
        readEntries depth fuel es cs
      | '}' :: cs => some (es, cs)
      | _ => none

end

/-- The document read so far: its tables, and the path of the last header. -/
structure State where
  root : Entries
  current : List String

/-- Reads a header after its first bracket. -/
def readHeader (s : State) (cs : List Char) : Option (State × List Char) :=
  match cs with
  | '[' :: cs => do
    let (path, cs) ← readKey cs
    let cs ← expectChar ']' cs
    let cs ← expectChar ']' cs
    let root ← s.root.append path
    some (⟨root, path⟩, cs)
  | cs => do
    let (path, cs) ← readKey cs
    let cs ← expectChar ']' cs
    let root ← s.root.open path
    some (⟨root, path⟩, cs)

/-- Reads a key with its value. -/
def readEntry (s : State) (cs : List Char) : Option (State × List Char) := do
  let (key, cs) ← readKey cs
  let cs ← expectChar '=' cs
  let (value, cs) ← readValue maxDepth (2 * cs.length + 2) (skipBlanks cs)
  let root ← s.root.define s.current key value
  some ({ s with root }, cs)

/-- Ends a line, on which only a comment may follow. -/
def endLine (cs : List Char) : Option (List Char) := do
  let cs ← skipComment (skipBlanks cs)
  match newline? cs with
  | some cs => some cs
  | none => if cs.isEmpty then some [] else none

/-- Reads the lines of a document. -/
def readDocument : Nat → State → List Char → Option State
  | 0, _, _ => none
  | fuel + 1, s, cs => do
    let cs ← skipFiller cs
    if cs.isEmpty then some s
    else
      let (s, cs) ← match cs with
        | '[' :: rest => readHeader s rest
        | cs => readEntry s cs
      let cs ← endLine cs
      readDocument fuel s cs

/-- The tree of a document; a byte order mark at its front is passed over. -/
def read (text : String) : Option Data := do
  let cs := match text.toList with
    | '\uFEFF' :: cs => cs
    | cs => cs
  let s ← readDocument (cs.length + 1) ⟨[], []⟩ cs
  some s.root.toData

end Isolate.Toml
