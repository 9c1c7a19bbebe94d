import Isolate.Yaml.Scalar

/-!
# The tokens of a YAML text

* `Yaml.nextTokens`: the next token, with those that only the layout shows;
* `Yaml.tokens?`: all tokens of a text.
-/

namespace Isolate.Yaml

/-- One more token. -/
def emit (t : Token) : Scan Unit := modify (·.push t)

/-- Ends all blocks before a line that belongs to no document. -/
def leaveBlocks : Scan Unit := do
  modify (·.unroll (-1))
  attempt Layout.dismiss
  allowKey false

/-- Reads a directive, which fills its line. -/
def directive : Scan Unit := do
  leaveBlocks
  goTo (·.pass 1)
  let t ← take? readDirective?
  let _ ← passGap
  let cs ← remaining
  if !atLineEnd cs then failure
  if !cs.isEmpty then goTo (·.passBreak)
  emit t

/-- Reads a mark that separates documents. -/
def marker (t : Token) : Scan Unit := do
  leaveBlocks
  goTo (·.pass 3)
  emit t

/-- Reads an opening bracket. -/
def openFlow (t : Token) : Scan Unit := do
  modify fun l => l.keep.rollRoom
  attempt Layout.openBracket
  allowKey true
  goTo (·.pass 1)
  if t = .flowTable then modify fun l => { l with braced := true }
  else modify fun l => { l with pairs := false :: l.pairs }
  let _ ← passGap
  emit t

/-- Reads a closing bracket. A colon after it needs no blank if it stands between brackets. -/
def closeFlow (t : Token) : Scan Unit := do
  attempt Layout.dismiss
  modify Layout.closeBracket
  allowKey false
  if t = .flowListEnd then modify fun l => { l.endPair with pairs := l.pairs.drop 1 }
  goTo (·.pass 1)
  let _ ← passGap
  modify fun l => if l.depth = 0 then l else { l with adjacent := l.cursor.index }
  emit t

/-- Reads a comma. -/
def comma : Scan Unit := do
  attempt Layout.dismiss
  allowKey true
  modify Layout.endPair
  goTo (·.pass 1)
  let _ ← passGap
  emit .comma

/-- Reads the mark before an item of a list. -/
def item : Scan Unit := do
  let l ← get
  if l.depth ≠ 0 || !l.keyAllowed then failure
  goTo (·.pass 1)
  modify fun m => m.roll l.column m.tokens.size .blockList
  let gap ← passGap
  let cs ← remaining
  if gap.contains '\t' && cs.head? == some '-' && endsWord (cs.drop 1) then failure
  if cs.head? == some '\n' || atFlowMark cs then modify Layout.rollRoom
  attempt Layout.dismiss
  allowKey true
  emit .item

/-- Passes over blanks, comments and ends of lines after the mark before a key, of which there is one
at least. No tab is among them. -/
def keyGap (l : Layout) : Option Layout :=
  if l.rest.isEmpty then none else skipFrom false .anything l l.rest

/-- Reads the mark before a key. -/
def key : Scan Unit := do
  let l ← get
  if l.depth = 0 then
    if !l.keyAllowed then failure
    set (l.roll l.column l.tokens.size .blockTable)
  else set { l with braced := true }
  attempt Layout.dismiss
  allowKey (l.depth == 0)
  goTo (·.pass 1)
  attempt keyGap
  emit .key

/-- Makes the token kept in mind a key. In a list between brackets a table with this one key
begins. -/
def nameKey (k : Candidate) (paired : Bool) (line : Nat) : Scan Unit := do
  modify (·.pushAt k.position .key)
  if paired then
    if k.line < line then failure
    modify (·.pushAt k.position .flowTable)
  modify fun l =>
    let l := (l.roll k.column k.position .blockTable).rollRoom
    { l with candidates := { k with live := false } :: l.candidates.drop 1 }
  allowKey false

/-- Reads the mark before a value whose key, if any, was marked itself. In a list between brackets a
table with this one value begins. -/
def freeValue (paired : Bool) (column : Int) (allowed : Bool) : Scan Unit := do
  if paired then emit .flowTable
  let l ← get
  if l.depth = 0 then
    if !allowed then failure
    set (l.roll column l.tokens.size .blockTable)
  modify Layout.rollRoom
  allowKey (l.depth == 0)

/-- Reads the mark before a value. Only blanks that are no tabs may separate it from a word. -/
def value : Scan Unit := do
  let l ← get
  let paired := !l.pairs.isEmpty && !l.braced
  if paired then set { l with pairs := true :: l.pairs.drop 1 }
  goTo (·.pass 1)
  if (← remaining).head? == some '\t' then
    let gap ← passGap
    if !gap.contains ' ' && (← remaining).head?.any isWordChar then failure
  if l.candidate.live then nameKey l.candidate paired l.cursor.line
  else freeValue paired l.column l.keyAllowed
  emit .value

/-- Reads a token after which no key can begin, though it may begin one itself. -/
def word (read : Scan Token) : Scan Unit := do
  modify Layout.keep
  allowKey false
  let t ← read
  emit t

/-- Reads a word in quotes. A colon after it needs no blank between brackets. -/
def quotedWord : Scan Token := do
  let t ← quotedScalar
  skipToToken
  modify fun l => { l with adjacent := l.cursor.index }
  pure t

/-- Reads a name after its mark. -/
def nameWord (t : String → Token) : Scan Token := do
  goTo (·.pass 1)
  let name ← take? readName?
  pure (t name)

/-- Reads a block of lines, after which a key can begin. -/
def blockWord : Scan Unit := do
  modify Layout.keep
  allowKey true
  let t ← blockScalar
  emit t

/-- A colon stands before the given text at a place where it is the mark before a value. -/
def isValueMark (l : Layout) (cs : List Char) : Bool :=
  endsToken (l.depth != 0) cs || (l.depth != 0 && l.cursor.index == l.adjacent)

/-- Reads the token that starts with a character before the given text. -/
def token (l : Layout) (c : Char) (cs : List Char) : Scan Unit :=
  if c = '[' then openFlow .flowList
  else if c = '\x7b' then openFlow .flowTable
  else if c = ']' then closeFlow .flowListEnd
  else if c = '\x7d' then closeFlow .flowTableEnd
  else if c = ',' then comma
  else if c = '-' && endsWord cs then item
  else if c = '?' && endsWord cs then key
  else if c = ':' && isValueMark l cs then value
  else if c = '*' then word (nameWord .reference)
  else if c = '&' then word (nameWord .anchor)
  else if c = '!' then word (do take? (readTag? ((← get).depth != 0)))
  else if (c = '|' || c = '>') && l.depth == 0 then blockWord
  else if c = '\'' || c = '"' then word quotedWord
  else if c = '%' || c = '@' || c.toNat = 0x60 then failure
  else word plainScalar

/-- Reads the next token, with those that only the layout shows. Yields whether the text goes on. -/
def nextTokens : Scan Bool := do
  skipToToken
  attempt Layout.expire
  modify fun l => l.unroll l.column
  let l ← get
  match l.rest with
  | [] =>
    if l.candidates.any (fun k => k.live && k.required) then failure
    modify (·.unroll (-1))
    pure false
  | c :: cs =>
    if l.column = 0 && c = '%' then directive
    else if l.cursor.atMarker '-' then marker .documentStart
    else if l.cursor.atMarker '.' then
      marker .documentEnd
      let _ ← passGap
      if !atLineEnd (← remaining) then failure
    else if l.column < l.indent then failure
    else token l c cs
    pure true

/-- Reads the tokens up to the end of the text. -/
def scanFrom : Nat → Scan Unit
  | 0 => failure
  | fuel + 1 => do
    if ← nextTokens then scanFrom fuel

/-- The tokens of a text, without those if it is not well formed. -/
def tokens? (cs : List Char) : Option (List Token) :=
  ((scanFrom (cs.length + 1)).run (.start cs)).map fun (_, l) => l.tokens.toList

end Isolate.Yaml
