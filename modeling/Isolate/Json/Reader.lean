import Isolate.Json.Token

/-!
# Reading JSON documents

* `Json.read`: the tree of a document;
* `Json.readBy`: the same, where the numbers that are no integers are read in a given way;
* `Json.maxDepth`: how deep lists and tables may be nested.
-/

namespace Isolate.Json

/-- The deepest nesting of lists and tables in a tree. -/
def maxDepth : Nat := 127

variable (float? : Numeral → Option Binary64)

mutual

/-- Reads a value; `depth` more levels may be opened and `fuel` bounds the steps. -/
def readValue (depth : Nat) : Nat → List Char → Except Fault (Data × List Char)
  | 0, _ => .error .grammar
  | fuel + 1, cs =>
    match skipBlanks cs with
    | '{' :: cs =>
      if depth = 0 then .error .grammar
      else do
        let (entries, cs) ← readEntries (depth - 1) fuel true cs
        pure (.table entries, cs)
    | '[' :: cs =>
      if depth = 0 then .error .grammar
      else do
        let (items, cs) ← readItems (depth - 1) fuel true cs
        pure (.list items, cs)
    | '"' :: cs => do
      let (s, cs) ← readString cs
      pure (.text s, cs)
    | 'n' :: cs => (expectWord "ull".toList cs).map (Data.null, ·)
    | 't' :: cs => (expectWord "rue".toList cs).map (Data.bool true, ·)
    | 'f' :: cs => (expectWord "alse".toList cs).map (Data.bool false, ·)
    | c :: cs => if c = '-' ∨ isDecimalDigit c then readNumber float? (c :: cs) else .error .grammar
    | [] => .error .cutOff

/-- Reads the items of a list up to its closing bracket. -/
def readItems (depth : Nat) : Nat → Bool → List Char → Except Fault (List Data × List Char)
  | 0, _, _ => .error .grammar
  | fuel + 1, first, cs =>
    match skipBlanks cs with
    | ']' :: cs' => if first then .ok ([], cs') else .error .grammar
    | cs' => do
      let (item, cs) ← readValue depth fuel cs'
      match skipBlanks cs with
      | ',' :: cs =>
        let (items, cs) ← readItems depth fuel false cs
        pure (item :: items, cs)
      | ']' :: cs => pure ([item], cs)
      | cs => .error (stray cs)

/-- Reads the entries of a table up to its closing brace. -/
def readEntries (depth : Nat) : Nat → Bool → List Char → Except Fault (List (String × Data) × List Char)
  | 0, _, _ => .error .grammar
  | fuel + 1, first, cs =>
    match skipBlanks cs with
    | '}' :: cs' => if first then .ok ([], cs') else .error .grammar
    | '"' :: cs' => do
      let (key, cs) ← readString cs'
      match skipBlanks cs with
      | ':' :: cs =>
        let (value, cs) ← readValue depth fuel cs
        match skipBlanks cs with
        | ',' :: cs =>
          let (entries, cs) ← readEntries depth fuel false cs
          pure ((key, value) :: entries, cs)
        | '}' :: cs => pure ([(key, value)], cs)
        | cs => .error (stray cs)
      | cs => .error (stray cs)
    | cs => .error (stray cs)

end

/-- The tree of a document. Of several values under one key the last one counts where a key is
looked up. -/
def readBy (text : String) : Except Fault Data := do
  let cs := text.toList
  let (value, rest) ← readValue float? maxDepth (2 * cs.length + 2) cs
  if (skipBlanks rest).isEmpty then pure value else .error .grammar

/-- The tree of a document, with its numbers as they are read here. -/
def read (text : String) : Except Fault Data := readBy Numeral.float? text

end Isolate.Json
