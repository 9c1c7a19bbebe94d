import Isolate.Data

/-!
# Key paths

A key at the top of a configuration may spell a way into the tree, such as `pool.size` or
`pool[0]`:

* `KeyPath.ofKey?`: the path that a key spells, if it spells one;
* `KeyPath.put`: the tree with a value put at the end of a path, where tables are merged.
-/

namespace Isolate

/-- One step of a way into a tree. -/
inductive KeyPath.Step where
  | key (name : String)
  /-- The place in a list; a negative one counts from the end. -/
  | index (place : Int)
  deriving DecidableEq, Repr

/-- A way into a tree. -/
abbrev KeyPath := List KeyPath.Step

namespace KeyPath

/-- A character of a name in a path. -/
def isNameChar (c : Char) : Bool := c.isAlphanum || c = '_' || c = '-'

/-- Reads a name. -/
def readName (cs : List Char) : Option (String × List Char) :=
  let name := cs.takeWhile isNameChar
  if name.isEmpty then none else some (String.ofList name, cs.dropWhile isNameChar)

/-- The integer of a list of characters: digits, after a minus sign if it is negative, within 64
bits. -/
def place? (cs : List Char) : Option Int := do
  let n ← if cs.head? = some '+' then none else Numeral.readInt cs
  if isInt64 n then some n else none

/-- A blank around an index. -/
def isBlank (c : Char) : Bool := c = ' ' || c = '\t'

/-- Text without the blanks at both ends. -/
def trimmed (cs : List Char) : List Char :=
  ((cs.dropWhile isBlank).reverse.dropWhile isBlank).reverse

/-- Reads the steps after the first name. -/
def readSteps : Nat → List Char → Option KeyPath
  | 0, _ => none
  | _ + 1, [] => some []
  | fuel + 1, '.' :: cs => do
    let (name, cs) ← readName cs
    let steps ← readSteps fuel cs
    some (.key name :: steps)
  | fuel + 1, '[' :: cs => do
    let inside := cs.takeWhile (· != ']')
    let place ← place? (trimmed inside)
    match cs.dropWhile (· != ']') with
    | _ :: cs => do
      let steps ← readSteps fuel cs
      some (.index place :: steps)
    | [] => none
  | _ + 1, _ => none

/-- The path that a key spells. -/
def ofKey? (key : String) : Option KeyPath := do
  let (name, cs) ← readName key.toList
  let steps ← readSteps (cs.length + 1) cs
  some (.key name :: steps)

/-- The path of a key: what it spells, or the key as it is. -/
def ofKey (key : String) : KeyPath := (ofKey? key).getD [.key key]

mutual

/-- A value put over another one. Entries of a table are put over those of the other table; anything
else replaces what was there. -/
def merge : Data → Data → Data
  | .table incoming, old => .table (mergeEntries incoming (entriesOf old))
  | .null, _ => .null
  | .bool b, _ => .bool b
  | .int n, _ => .int n
  | .float x, _ => .float x
  | .text s, _ => .text s
  | .list items, _ => .list items

/-- Entries put over other entries one after the other. -/
def mergeEntries : List (String × Data) → List (String × Data) → List (String × Data)
  | [], old => old
  | (key, value) :: es, old =>
    mergeEntries es (Data.put key (merge value ((old.lookup key).getD .null)) old)

/-- The entries of a table; anything else has none. -/
def entriesOf : Data → List (String × Data)
  | .table es => es
  | _ => []

end

/-- The items of a list; anything else has none. -/
def itemsOf : Data → List Data
  | .list items => items
  | _ => []

/-- The place of an index in a list, where the list is filled up with nulls at its end, or in front
for an index that counts back beyond its start. -/
def makeRoom (place : Int) (items : List Data) : Nat × List Data :=
  if 0 ≤ place then
    (place.toNat, items ++ List.replicate (place.toNat + 1 - items.length) .null)
  else
    let back := place.natAbs
    if back ≤ items.length then (items.length - back, items)
    else (0, List.replicate (back - items.length) .null ++ items)

/-- The tree with a value put at the end of a path. What stands in the way of the path is replaced
by tables and lists. -/
def put : KeyPath → Data → Data → Data
  | [], value, old => merge value old
  | .key name :: steps, value, old =>
    let es := entriesOf old
    .table (Data.put name (put steps value ((es.lookup name).getD .null)) es)
  | .index place :: steps, value, old =>
    let (i, items) := makeRoom place (itemsOf old)
    .list (items.set i (put steps value ((items[i]?).getD .null)))

/-- The tree of a document in which the keys at the top are paths. -/
def expand (entries : List (String × Data)) : Data :=
  entries.foldl (fun root e => put (ofKey e.1) e.2 root) (.table [])

end KeyPath

end Isolate
