import Isolate.Yaml.Node

/-!
# Places in a YAML text

Where a token stands decides what it belongs to, so the place of the reader has a line and a column:

* `Yaml.Cursor`: what is left of a text and the place where it starts;
* `Yaml.Cursor.pass`, `Yaml.Cursor.passBlanks`, `Yaml.Cursor.passBreak`: the ways to go on.

A text ends where a character with the code zero stands, and every line ends in the same way.
-/

namespace Isolate.Yaml

/-- A blank within a line. -/
def isBlank (c : Char) : Bool := c = ' ' || c = '\t'

/-- A character that ends a word: a blank or the end of a line. -/
def isSpace (c : Char) : Bool := isBlank c || c = '\n'

/-- A character that means something between brackets. -/
def isFlowMark (c : Char) : Bool := ",[]\x7b\x7d".toList.contains c

/-- A letter or a digit, or a mark that counts as one. -/
def isWordChar (c : Char) : Bool := c.isAlphanum || c = '_' || c = '-'

/-- The text ends here, or the line does. -/
def atLineEnd (cs : List Char) : Bool := cs.isEmpty || cs.head? == some '\n'

/-- The text ends here, or a character that ends a word stands here. -/
def endsWord : List Char → Bool
  | [] => true
  | c :: _ => isSpace c

/-- A character that means something between brackets stands here. -/
def atFlowMark (cs : List Char) : Bool := cs.head?.any isFlowMark

/-- The text ends here, or a character that ends a token stands here. -/
def endsToken (flow : Bool) (cs : List Char) : Bool := endsWord cs || (flow && atFlowMark cs)

/-- The characters up to the end of the line. -/
def lineRest (cs : List Char) : List Char := cs.takeWhile (· != '\n')

/-- A place in a text. -/
structure Cursor where
  rest : List Char
  /-- How many characters stand before this place. -/
  index : Nat
  line : Nat
  column : Nat
  /-- Only blanks stand before this place on its line. -/
  fresh : Bool

namespace Cursor

/-- The start of a text. -/
def start (rest : List Char) : Cursor := ⟨rest, 0, 0, 0, true⟩

/-- The place after so many blanks. -/
def passBlanks (c : Cursor) (n : Nat) : Cursor :=
  { c with rest := c.rest.drop n, index := c.index + n, column := c.column + n }

/-- The place after so many characters of a line. -/
def pass (c : Cursor) (n : Nat) : Cursor := { c.passBlanks n with fresh := c.fresh && n == 0 }

/-- The place on the same line where only `rest` is left. -/
def moveTo (c : Cursor) (rest : List Char) : Cursor := c.pass (c.rest.length - rest.length)

/-- The place after the end of a line. -/
def passBreak (c : Cursor) : Cursor := ⟨c.rest.drop 1, c.index + 1, c.line + 1, 0, true⟩

/-- Three characters of a mark that separates documents stand here. -/
def atMarker (mark : Char) (c : Cursor) : Bool :=
  c.column == 0 && c.rest.take 3 == [mark, mark, mark] && endsWord (c.rest.drop 3)

/-- A mark that separates documents stands here. -/
def atAnyMarker (c : Cursor) : Bool := c.atMarker '-' || c.atMarker '.'

end Cursor

/-- A text in which every line ends in the same way, up to the character with the code zero. -/
def unifyBreaks : List Char → List Char
  | '\r' :: '\n' :: cs => '\n' :: unifyBreaks cs
  | '\r' :: cs => '\n' :: unifyBreaks cs
  | '\x00' :: _ => []
  | c :: cs => c :: unifyBreaks cs
  | [] => []

end Isolate.Yaml
