import Isolate.Yaml.Token

/-!
# The layout of YAML texts

Blocks have no brackets: indentation tells where they begin and end. And a key is known only by the
colon after it, so a token that may be one is kept in mind until then.

* `Yaml.Layout`: the tokens read so far and all that decides what the next ones mean;
* `Yaml.Layout.roll`, `Yaml.Layout.unroll`: where blocks begin and end;
* `Yaml.Layout.keep`, `Yaml.Layout.dismiss`, `Yaml.Layout.expire`: what becomes of possible keys;
* `Yaml.Scan`: reads something off the front of the text.
-/

namespace Isolate.Yaml

/-- A token that may turn out to be a key. -/
structure Candidate where
  /-- It may still be a key. -/
  live : Bool
  /-- It stands where only a key can stand. -/
  required : Bool
  /-- How many tokens stand before it. -/
  position : Nat
  index : Nat
  line : Nat
  column : Nat

/-- No token. -/
def Candidate.none : Candidate := ⟨false, false, 0, 0, 0, 0⟩

/-- The furthest that a colon may stand from the start of its key. -/
def Candidate.reach : Nat := 1024

/-- A step of the indentation. -/
structure Level where
  /-- The indentation around it. -/
  around : Int
  /-- A block begins with it. Otherwise it is the one column that a value must be indented by. -/
  block : Bool

/-- What is known at a place of a text. -/
structure Layout where
  cursor : Cursor
  tokens : Array Token
  indent : Int
  /-- The steps of the indentation, the innermost first. -/
  levels : List Level
  /-- How many brackets are open. -/
  depth : Nat
  /-- A key may begin here. -/
  keyAllowed : Bool
  /-- The last token outside brackets that may be a key, and that in each bracket, the innermost
  first. -/
  candidates : List Candidate
  /-- The index where a colon needs no blank after it. -/
  adjacent : Nat
  /-- A table between brackets has begun, so a colon makes no table of its own. -/
  braced : Bool
  /-- For each open list between brackets, the innermost first, whether a pair without braces of its
  own has begun in it. -/
  pairs : List Bool

namespace Layout

/-- The start of a text. -/
def start (cs : List Char) : Layout :=
  ⟨.start cs, #[], -1, [], 0, true, [.none], 0, false, []⟩

/-- The characters that are left. -/
def rest (l : Layout) : List Char := l.cursor.rest

/-- The column of the place. -/
def column (l : Layout) : Int := l.cursor.column

/-- One more token. -/
def push (t : Token) (l : Layout) : Layout := { l with tokens := l.tokens.push t }

/-- One more token after the given number of tokens. -/
def pushAt (n : Nat) (t : Token) (l : Layout) : Layout :=
  { l with tokens := l.tokens.insertIdxIfInBounds n t }

/-! ### Blocks -/

/-- Ends the blocks of levels that are indented by more than a column. -/
def unrollLevels (column : Int) (l : Layout) : List Level → Layout
  | [] => { l with levels := [] }
  | level :: levels =>
    if l.indent ≤ column then { l with levels := level :: levels }
    else
      let l := if level.block then l.push .blockEnd else l
      unrollLevels column { l with indent := level.around } levels

/-- Ends the blocks that are indented by more than a column. -/
def unroll (column : Int) (l : Layout) : Layout :=
  if l.depth = 0 then unrollLevels column l l.levels else l

/-- Gives up the columns that values were to be indented by. -/
def unrollRoomLevels (l : Layout) : List Level → Layout
  | [] => { l with levels := [] }
  | level :: levels =>
    if level.block then { l with levels := level :: levels }
    else unrollRoomLevels { l with indent := level.around } levels

/-- Gives up the columns that values were to be indented by. -/
def unrollRoom (l : Layout) : Layout := unrollRoomLevels l l.levels

/-- Begins a block in a column if it is indented by more than the block around it. Its token comes
after the given number of tokens. -/
def roll (column : Int) (position : Nat) (t : Token) (l : Layout) : Layout :=
  if l.depth ≠ 0 then l
  else
    let l := match l.levels with
      | level :: levels =>
        if l.indent ≤ column && !level.block then { l with indent := level.around, levels }
        else l
      | [] => l
    if l.indent < column then
      { l.pushAt position t with indent := column, levels := ⟨l.indent, true⟩ :: l.levels }
    else l

/-- Asks for one more column of indentation within a block. -/
def rollRoom (l : Layout) : Layout :=
  if l.depth = 0 && l.levels.head?.any (·.block) then
    { l with indent := l.indent + 1, levels := ⟨l.indent, false⟩ :: l.levels }
  else l

/-! ### Keys -/

/-- The next token may be a key, if one is allowed here. -/
def keep (l : Layout) : Layout :=
  if l.keyAllowed then
    let required := l.depth == 0 && l.indent == l.column && l.levels.head?.any (·.block)
    let c := l.cursor
    { l with
      candidates := ⟨true, required, l.tokens.size, c.index, c.line, c.column⟩ :: l.candidates.drop 1 }
  else l

/-- The last token that may be a key. -/
def candidate (l : Layout) : Candidate := l.candidates.head?.getD .none

/-- The last token is no key, which it must not have to be. -/
def dismiss (l : Layout) : Option Layout :=
  if l.candidate.live && l.candidate.required then none
  else some
    { l with candidates := { l.candidate with live := false } :: l.candidates.drop 1 }

/-- The colon of a possible key can no longer come: outside brackets it stands on the same line, and
not too far away. -/
def isPast (l : Layout) (k : Candidate) : Bool :=
  k.live && l.depth == 0 &&
    (decide (k.line < l.cursor.line) || decide (k.index + Candidate.reach < l.cursor.index))

/-- Tokens whose colon can no longer come are no keys, which they must not have to be. -/
def expire (l : Layout) : Option Layout :=
  if l.candidates.any (fun k => l.isPast k && k.required) then none
  else some
    { l with
      candidates := l.candidates.map fun k => if l.isPast k then { k with live := false } else k }

/-! ### Brackets -/

/-- Brackets nest to this depth at most. -/
def maxDepth : Nat := 255

/-- One more bracket is open. -/
def openBracket (l : Layout) : Option Layout :=
  if l.depth < maxDepth then
    some { l with depth := l.depth + 1, candidates := .none :: l.candidates }
  else none

/-- The innermost bracket is closed. -/
def closeBracket (l : Layout) : Layout :=
  if l.depth = 0 then l
  else { l with depth := l.depth - 1, candidates := l.candidates.drop 1 }

/-- A pair without braces of its own ends. -/
def endPair (l : Layout) : Layout :=
  match l.pairs with
  | true :: pairs => { l.push .flowTableEnd with braced := false, pairs := false :: pairs }
  | _ => l

end Layout

/-- Reads something off the front of the text. -/
abbrev Scan := StateT Layout Option

/-- The characters that are left. -/
def remaining : Scan (List Char) := do pure (← get).rest

/-- Goes on to another place. -/
def goTo (f : Cursor → Cursor) : Scan Unit := modify fun l => { l with cursor := f l.cursor }

/-- Says whether a key may begin here. -/
def allowKey (b : Bool) : Scan Unit := modify fun l => { l with keyAllowed := b }

/-- Changes the layout unless that is impossible. -/
def attempt (f : Layout → Option Layout) : Scan Unit := do set (← (f (← get) : Option Layout))

/-- Takes a token off the front of the text. -/
def take? {α : Type} (read? : List Char → Option (α × List Char)) : Scan α := do
  let (a, rest) ← (read? (← remaining) : Option (α × List Char))
  goTo (·.moveTo rest)
  pure a

/-- Passes over the blanks at the end of a token and over a comment, before which a blank must
stand. -/
def passGap : Scan (List Char) := do
  let cs ← remaining
  let gap := cs.takeWhile isBlank
  goTo (·.passBlanks gap.length)
  let cs ← remaining
  if cs.head? == some '#' then
    if gap.isEmpty then failure
    goTo (·.pass (lineRest cs).length)
  pure gap

/-- What may stand before the next token on a line. -/
inductive Stretch where
  | anything
  /-- Only blanks and a comment, since a tab stands where the line should be indented. -/
  | nothing
  /-- A comment has begun. -/
  | comment

/-- Moves to the next token, beyond blanks, comments and ends of lines; no tab may stand before it
unless `tabs` is set. -/
def skipFrom (tabs : Bool) (stretch : Stretch) (l : Layout) : List Char → Option Layout
  | [] => some l
  | c :: cs =>
    if c = '\n' then
      skipFrom tabs .anything
        { l with cursor := l.cursor.passBreak, keyAllowed := l.keyAllowed || l.depth == 0 } cs
    else
      match stretch with
      | .comment => skipFrom tabs .comment { l with cursor := l.cursor.pass 1 } cs
      | stretch =>
        if c = '#' then skipFrom tabs .comment { l with cursor := l.cursor.pass 1 } cs
        else if c = '\t' && !tabs then none
        else if isBlank c then
          let unindented :=
            c == '\t' && !l.levels.isEmpty && l.cursor.fresh && decide (l.column < l.indent)
          skipFrom tabs (if unindented then .nothing else stretch)
            { l with cursor := l.cursor.passBlanks 1 } cs
        else match stretch with
          | .nothing => none
          | _ => some l

/-- Moves to the next token, beyond blanks, comments and ends of lines. -/
def skipToToken : Scan Unit := attempt fun l => skipFrom true .anything l l.rest

end Isolate.Yaml
