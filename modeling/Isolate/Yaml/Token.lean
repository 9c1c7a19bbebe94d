import Isolate.Yaml.Cursor

/-!
# Tokens of YAML texts

* `Yaml.Token`: the tokens, among them those that only the layout of a text shows;
* `Yaml.readTag?`, `Yaml.readName?`, `Yaml.readDirective?`: tokens that stand on one line, taken off
  the front of a text.
-/

namespace Isolate.Yaml

/-- A token. -/
inductive Token where
  /-- A line that gives a version. -/
  | version
  /-- A line that says which tags a handle stands for. -/
  | handle (handle family : String)
  | documentStart
  | documentEnd
  /-- A list begins that is laid out by its indentation. -/
  | blockList
  /-- A table begins that is laid out by its indentation. -/
  | blockTable
  | blockEnd
  | flowList
  | flowListEnd
  | flowTable
  | flowTableEnd
  /-- A mark before an item of a list that is laid out by its indentation. -/
  | item
  /-- A comma between brackets. -/
  | comma
  /-- A key begins. -/
  | key
  /-- A value begins. -/
  | value
  /-- A name that stands for a node given before. -/
  | reference (name : String)
  /-- A name for the node that follows. -/
  | anchor (name : String)
  /-- A tag for the node that follows: the handle of its family and the rest. -/
  | tag (handle suffix : String)
  /-- A scalar; only one without quotes can be something else than text. -/
  | scalar (plain : Bool) (text : String)
  deriving DecidableEq, Repr, Inhabited

/-! ### Tags -/

/-- A character of an address. -/
def isAddressChar (c : Char) : Bool :=
  c.isAlphanum || "-#;/?:@&=+$,_.!~*'()[]%".toList.contains c

/-- A character of a tag after its handle. -/
def isTagChar (c : Char) : Bool := isAddressChar c && !isFlowMark c && c != '!'

/-- The number of two hexadecimal digits after a percent sign, and the rest. -/
def percentByte? : List Char → Option (Nat × List Char)
  | '%' :: a :: b :: cs => do
    let high ← hexDigitValue? a
    let low ← hexDigitValue? b
    some (16 * high + low, cs)
  | _ => none

/-- The character of one percent sign with its digits or of two. Bytes in sequence count as one number
to the base 256; sequences of three bytes and more are beyond all characters. -/
def percentChar? (cs : List Char) : Option (Char × List Char) := do
  let (first, cs) ← percentByte? cs
  if first < 0x80 then some (Char.ofNat first, cs)
  else if 0xC0 ≤ first ∧ first < 0xE0 then
    let (second, cs) ← percentByte? cs
    let n := 256 * first + second
    if second / 64 = 2 ∧ n < 0xD800 then some (Char.ofNat n, cs) else none
  else none

/-- Takes characters of an address off the front of a text. -/
def readAddress? (isPart : Char → Bool) : Nat → List Char → Option (List Char × List Char)
  | 0, _ => none
  | fuel + 1, cs =>
    match cs with
    | [] => some ([], [])
    | c :: rest =>
      if !isPart c then some ([], c :: rest)
      else do
        let (first, rest) ← if c = '%' then percentChar? (c :: rest) else some (c, rest)
        let (more, rest) ← readAddress? isPart fuel rest
        some (first :: more, rest)

/-- Takes a handle off the front of a text: letters between two exclamation marks, of which the
second may be missing. -/
def readHandle? (cs : List Char) : Option (List Char × List Char) :=
  match cs with
  | '!' :: cs =>
    let word := cs.takeWhile isWordChar
    match cs.dropWhile isWordChar with
    | '!' :: rest => some ('!' :: (word ++ ['!']), rest)
    | rest => some ('!' :: word, rest)
  | _ => none

/-- The handle has both its exclamation marks. -/
def isClosedHandle (handle : List Char) : Bool :=
  2 ≤ handle.length && handle.getLast? == some '!'

/-- Takes a tag off the front of a text. -/
def readTag? (flow : Bool) (cs : List Char) : Option (Token × List Char) := do
  let (tag, rest) ← match cs with
    | '!' :: '<' :: cs => do
      let (address, rest) ← readAddress? isAddressChar (cs.length + 1) cs
      match rest with
      | '>' :: rest => some (Token.tag "" (String.ofList address), rest)
      | _ => none
    | cs => do
      let (handle, rest) ← readHandle? cs
      let (suffix, rest) ← readAddress? isTagChar (rest.length + 1) rest
      if isClosedHandle handle then
        if suffix.isEmpty then none
        else some (.tag (String.ofList handle) (String.ofList suffix), rest)
      else
        let suffix := handle.drop 1 ++ suffix
        if suffix.isEmpty then some (.tag "" "!", rest)
        else some (.tag "!" (String.ofList suffix), rest)
  if endsToken flow rest then some (tag, rest) else none

/-! ### Names -/

/-- A character of a name. -/
def isNameChar (c : Char) : Bool := !isSpace c && !isFlowMark c && c != '\uFEFF'

/-- Takes a name off the front of a text. -/
def readName? (cs : List Char) : Option (String × List Char) :=
  let name := cs.takeWhile isNameChar
  if name.isEmpty then none else some (String.ofList name, cs.dropWhile isNameChar)

/-! ### Directives -/

/-- Takes a number of at most nine digits off the front of a text. -/
def readVersionNumber? (cs : List Char) : Option (List Char) :=
  let ds := cs.takeWhile isDecimalDigit
  if ds.isEmpty || 9 < ds.length then none else some (cs.dropWhile isDecimalDigit)

/-- Takes the beginning of the tags of a family off the front of a text. -/
def readFamily? (cs : List Char) : Option (List Char × List Char) :=
  match cs with
  | [] => none
  | c :: rest => do
    let (first, rest) ← if c = '!' then some (c, rest)
      else if !isTagChar c then none
      else if c = '%' then percentChar? (c :: rest)
      else some (c, rest)
    let (more, rest) ← readAddress? isAddressChar (rest.length + 1) rest
    some (first :: more, rest)

/-- Takes a directive off the front of a text after its percent sign. One that is not known says
nothing. -/
def readDirective? (cs : List Char) : Option (Token × List Char) := do
  let word := cs.takeWhile isWordChar
  let rest := cs.dropWhile isWordChar
  if word.isEmpty || !endsWord rest then none
  else
    let given := rest.dropWhile isBlank
    match String.ofList word with
    | "YAML" => do
      let rest ← readVersionNumber? given
      match rest with
      | '.' :: rest => do
        let rest ← readVersionNumber? rest
        some (.version, rest)
      | _ => none
    | "TAG" => do
      let (handle, rest) ← readHandle? given
      if handle != ['!'] && !isClosedHandle handle then none
      else
        let (family, rest) ← readFamily? (rest.dropWhile isBlank)
        if endsWord rest then some (.handle (String.ofList handle) (String.ofList family), rest)
        else none
    | _ => some (.handle "" "", rest.drop (lineRest rest).length)

end Isolate.Yaml
