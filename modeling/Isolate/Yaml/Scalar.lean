import Isolate.Yaml.Layout

/-!
# Scalars of YAML texts

* `Yaml.plainScalar`: words without quotes, over one line or several;
* `Yaml.quotedScalar`: words in quotes;
* `Yaml.blockScalar`: lines that are taken as they are or filled into paragraphs.

An end of a line within a word counts as a blank, and further empty lines count as ends of lines.
-/

namespace Isolate.Yaml

/-- What stands between two parts of a word. -/
structure Gap where
  /-- The blanks, in reverse. -/
  blanks : List Char
  /-- A line ends that counts as a blank. -/
  folded : Bool
  /-- How many further lines end. -/
  breaks : Nat

/-- Nothing stands between two parts of a word. -/
def Gap.none : Gap := ⟨[], false, 0⟩

/-- What a gap counts as, in reverse. -/
def Gap.text (g : Gap) : List Char :=
  if g.breaks ≠ 0 then List.replicate g.breaks '\n'
  else if g.folded then [' ']
  else g.blanks

/-! ### Words without quotes -/

/-- The characters of a word up to a blank, the end of the line or a mark. -/
def wordPart (flow : Bool) : List Char → List Char
  | [] => []
  | c :: cs =>
    if isSpace c || (c = ':' && endsToken flow cs) || (flow && isFlowMark c) then []
    else c :: wordPart flow cs

/-- Passes over blanks and ends of lines after a part of a word. Where a line should be indented, a
tab may stand only on a line without content. -/
def plainGap (indent : Int) : Nat → Gap → Scan Gap
  | 0, _ => failure
  | fuel + 1, g => do
    let c := (← get).cursor
    match c.rest with
    | [] => pure g
    | ch :: _ =>
      if ch = '\n' then
        goTo (·.passBreak)
        plainGap indent fuel (if c.fresh then { g with breaks := g.breaks + 1 } else ⟨[], true, g.breaks⟩)
      else if !isBlank ch then pure g
      else if !c.fresh then
        goTo (·.passBlanks 1)
        plainGap indent fuel { g with blanks := ch :: g.blanks }
      else if ch = '\t' && decide (c.column < indent) then
        let _ ← passGap
        if !atLineEnd (← remaining) then failure
        plainGap indent fuel g
      else
        goTo (·.passBlanks 1)
        plainGap indent fuel g

/-- Reads the further parts of a word after a gap; what was read is in reverse. -/
def plainFrom (flow : Bool) (indent : Int) : Nat → Gap → List Char → Scan (List Char)
  | 0, _, _ => failure
  | fuel + 1, gap, read => do
    let c := (← get).cursor
    if c.atAnyMarker || c.rest.head? == some '#' then pure read
    else if flow && c.rest.head? == some '-' && atFlowMark (c.rest.drop 1) then failure
    else
      let part := wordPart flow c.rest
      let read := if part.isEmpty then read else part.reverse ++ (gap.text ++ read)
      goTo (·.pass part.length)
      let cs ← remaining
      if !(cs.head?.any isSpace) then pure read
      else
        let gap ← plainGap indent (cs.length + 1) .none
        if !flow && decide ((← get).column < indent) then pure read
        else plainFrom flow indent fuel gap read

/-- Reads a word without quotes. -/
def plainScalar : Scan Token := do
  modify Layout.unrollRoom
  let l ← get
  let flow := l.depth != 0
  let indent := l.indent + 1
  if flow && decide (l.column < indent) then failure
  let read ← plainFrom flow indent (l.rest.length + 1) .none []
  if (← get).cursor.fresh then allowKey true
  pure (.scalar true (String.ofList read.reverse))

/-! ### Words in quotes -/

/-- The character of a number of hexadecimal digits, and the rest. -/
def hexChar? (count : Nat) (cs : List Char) : Option (Char × List Char) :=
  let ds := cs.take count
  if ds.length = count && ds.all (fun c => (hexDigitValue? c).isSome) then
    let n := digitsValue 16 ds
    if n < 0xD800 ∨ (0xE000 ≤ n ∧ n < 0x110000) then some (Char.ofNat n, cs.drop count) else none
  else none

/-- The character of an escape after the backslash, and the rest. -/
def escape? : List Char → Option (Char × List Char)
  | '0' :: cs => some ('\x00', cs)
  | 'a' :: cs => some ('\x07', cs)
  | 'b' :: cs => some ('\x08', cs)
  | 't' :: cs => some ('\t', cs)
  | '\t' :: cs => some ('\t', cs)
  | 'n' :: cs => some ('\n', cs)
  | 'v' :: cs => some ('\x0b', cs)
  | 'f' :: cs => some ('\x0c', cs)
  | 'r' :: cs => some ('\r', cs)
  | 'e' :: cs => some ('\x1b', cs)
  | ' ' :: cs => some (' ', cs)
  | '"' :: cs => some ('"', cs)
  | '/' :: cs => some ('/', cs)
  | '\\' :: cs => some ('\\', cs)
  | 'N' :: cs => some ('\u0085', cs)
  | '_' :: cs => some ('\u00a0', cs)
  | 'L' :: cs => some ('\u2028', cs)
  | 'P' :: cs => some ('\u2029', cs)
  | 'x' :: cs => hexChar? 2 cs
  | 'u' :: cs => hexChar? 4 cs
  | 'U' :: cs => hexChar? 8 cs
  | _ => none

/-- The part of a word up to a blank, the end of the line or the closing quote, the rest, and whether
the end of the line is escaped. What was read is in reverse. -/
def quotedPart (quote : Char) : Nat → List Char → List Char → Option (List Char × List Char × Bool)
  | 0, _, _ => none
  | fuel + 1, read, cs =>
    match cs with
    | [] => some (read, [], false)
    | c :: rest =>
      if isSpace c then some (read, c :: rest, false)
      else if c = quote then
        match rest with
        | d :: after =>
          if quote = '\'' ∧ d = '\'' then quotedPart quote fuel ('\'' :: read) after
          else some (read, c :: rest, false)
        | [] => some (read, c :: rest, false)
      else if c = '\\' ∧ quote = '"' then
        if rest.head? = some '\n' then some (read, rest, true)
        else do
          let (escaped, rest) ← escape? rest
          quotedPart quote fuel (escaped :: read) rest
      else quotedPart quote fuel (c :: read) rest

/-- Passes over blanks and ends of lines within quotes. No tab may stand where a line should be
indented. -/
def quotedGap (indent : Int) : Nat → (broken : Bool) → Gap → Scan Gap
  | 0, _, _ => failure
  | fuel + 1, broken, g => do
    let c := (← get).cursor
    match c.rest with
    | [] => pure g
    | ch :: _ =>
      if ch = '\n' then
        goTo (·.passBreak)
        quotedGap indent fuel true
          (if broken then { g with breaks := g.breaks + 1 } else ⟨[], true, g.breaks⟩)
      else if !isBlank ch then pure g
      else if broken && ch = '\t' && decide (c.column < indent) then failure
      else
        goTo (·.passBlanks 1)
        quotedGap indent fuel broken (if broken then g else { g with blanks := ch :: g.blanks })

/-- Reads a word up to its closing quote; what was read is in reverse. -/
def quotedFrom (quote : Char) : Nat → List Char → Scan (List Char)
  | 0, _ => failure
  | fuel + 1, read => do
    let l ← get
    if l.cursor.atAnyMarker || l.rest.isEmpty || decide (l.column < l.indent) then failure
    let (read, rest, escaped) ←
      (quotedPart quote (l.rest.length + 1) read l.rest : Option (List Char × List Char × Bool))
    goTo (·.moveTo rest)
    if escaped then goTo (·.passBreak)
    let cs ← remaining
    if cs.head? == some quote then pure read
    else
      let gap ← quotedGap l.indent (cs.length + 1) escaped .none
      quotedFrom quote fuel (gap.text ++ read)

/-- What may follow a word in quotes that starts on a line: nothing more on the line, a colon if it
can be a key, or a mark between brackets. -/
def mayFollowQuoted (line : Nat) (l : Layout) : Bool :=
  match l.rest with
  | [] => true
  | c :: _ =>
    c = '\n' || (c = ':' && (l.depth != 0 || l.cursor.line == line)) ||
      (l.depth != 0 && (c = ',' || c = ']' || c = '\x7d'))

/-- Reads a word in quotes. -/
def quotedScalar : Scan Token := do
  let l ← get
  let quote := l.rest.head?.getD '"'
  goTo (·.pass 1)
  let read ← quotedFrom quote (l.rest.length + 1) []
  goTo (·.pass 1)
  let _ ← passGap
  if !mayFollowQuoted l.cursor.line (← get) then failure
  pure (.scalar false (String.ofList read.reverse))

/-! ### Blocks of lines -/

/-- What happens to the ends of lines at the end of a block. -/
inductive Chomp where
  | strip
  | clip
  | keep
  deriving DecidableEq

/-- The way to chomp at the front of a heading. -/
def readChomp : List Char → Option (Chomp × List Char)
  | '+' :: cs => some (.keep, cs)
  | '-' :: cs => some (.strip, cs)
  | _ => none

/-- The indentation at the front of a heading, zero if there is none. -/
def readStep : List Char → Option (Nat × List Char)
  | [] => some (0, [])
  | c :: cs =>
    if c = '0' then none
    else if isDecimalDigit c then some (digitsValue 10 [c], cs)
    else some (0, c :: cs)

/-- The heading of a block: how to chomp and the indentation, in any order. -/
def readHeading (cs : List Char) : Option ((Chomp × Nat) × List Char) :=
  match readChomp cs with
  | some (chomp, cs) => (readStep cs).map fun (step, cs) => ((chomp, step), cs)
  | none => do
    let (step, cs) ← readStep cs
    match if step = 0 then none else readChomp cs with
    | some (chomp, cs) => some ((chomp, step), cs)
    | none => some ((.clip, step), cs)

/-- Passes over blanks up to a column, if there is one, and over empty lines. Yields how many lines
end and the furthest column reached. -/
def blockGap (column : Option Nat) : Nat → Nat → Nat → Scan (Nat × Nat)
  | 0, _, _ => failure
  | fuel + 1, breaks, furthest => do
    let c := (← get).cursor
    let blanks := (c.rest.takeWhile (· == ' ')).length
    let blanks := column.elim blanks fun column => min blanks (column - c.column)
    goTo (·.passBlanks blanks)
    let furthest := max furthest (c.column + blanks)
    if (← remaining).head? == some '\n' then
      goTo (·.passBreak)
      blockGap column fuel (breaks + 1) furthest
    else pure (breaks, furthest)

/-- What was read of a block: its text in reverse, whether the end of a line follows, how many lines
end after that, and whether the last line starts with a blank. -/
structure Paragraph where
  read : List Char
  ended : Bool
  breaks : Nat
  blank : Bool

/-- One more line of a block. In a filled block a single end of a line between two lines that start
with no blank counts as a blank. -/
def Paragraph.add (filled : Bool) (p : Paragraph) (line : List Char) : Paragraph :=
  let blank := line.head?.any isBlank
  let breaks := List.replicate p.breaks '\n'
  let between :=
    if filled && p.ended && !p.blank && !blank then if p.breaks = 0 then [' '] else breaks
    else if p.ended then '\n' :: breaks
    else breaks
  ⟨line.reverse ++ (between ++ p.read), false, 0, blank⟩

/-- Reads the lines of a block. -/
def blockLines (filled : Bool) (column : Nat) : Nat → Paragraph → Scan Paragraph
  | 0, _ => failure
  | fuel + 1, p => do
    let c := (← get).cursor
    if c.column ≠ column || c.rest.isEmpty then pure p
    else
      let line := lineRest c.rest
      goTo (·.pass line.length)
      let p := p.add filled line
      let cs ← remaining
      if cs.isEmpty then pure p
      else
        goTo (·.passBreak)
        let (breaks, _) ← blockGap (some column) (cs.length + 1) 0 0
        blockLines filled column fuel { p with ended := true, breaks }

/-- The ends of lines after the last line of a block. The last line of a text may lack its end. -/
def Paragraph.tail (chomp : Chomp) (unended : Bool) (p : Paragraph) : Nat :=
  let ends := (if p.ended then 1 else 0) + if unended then 1 else 0
  match chomp with
  | .strip => 0
  | .clip => ends
  | .keep => ends + p.breaks

/-- Reads a block of lines. -/
def blockScalar : Scan Token := do
  let mark := (← remaining).head?
  goTo (·.pass 1)
  modify Layout.unrollRoom
  let (chomp, step) ← take? readHeading
  let _ ← passGap
  let cs ← remaining
  if !atLineEnd cs then failure
  if !cs.isEmpty then goTo (·.passBreak)
  if (← remaining).head? == some '\t' then failure
  let indent := (← get).indent
  let given := if step = 0 then none else some ((max indent 0).toNat + step)
  let (breaks, furthest) ← blockGap given (cs.length + 1) 0 0
  let column := given.getD (max furthest (indent + 1).toNat)
  let l ← get
  let text ←
    if l.rest.isEmpty then
      let count := match chomp with
        | .strip => 0
        | .clip => 1
        | .keep => max breaks 1
      pure (List.replicate (if cs.isEmpty then 0 else count) '\n')
    else if l.cursor.column < column && decide (indent < l.column) then failure
    else
      let p ← blockLines (mark == some '>') column (l.rest.length + 1) ⟨[], false, breaks, false⟩
      let l ← get
      let tail := p.tail chomp (l.rest.isEmpty && decide (max column 1 ≤ l.cursor.column))
      pure (List.replicate tail '\n' ++ p.read)
  pure (.scalar false (String.ofList text.reverse))

end Isolate.Yaml
