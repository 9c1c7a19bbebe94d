import Isolate.Data
import Isolate.Toml.Moment

/-!
# Strings, numbers and keys in TOML

* `Toml.readString`: strings in one or three quotes of either kind;
* `Toml.scalarOf?`: the value of a bare word: a truth value, a number or a moment;
* `Toml.readKey`: a dotted key.

Each reader takes its token off the front of the text and yields nothing if the text is not well
formed.
-/

namespace Isolate.Toml

/-- A control character that may stand nowhere. -/
def isControl (c : Char) : Bool := (c.toNat < 0x20 ∧ c ≠ '\t') ∨ c.toNat = 0x7F

/-- A blank within a line. -/
def isBlank (c : Char) : Bool := c = ' ' ∨ c = '\t'

/-- The text after the blanks at its front. -/
def skipBlanks (cs : List Char) : List Char := cs.dropWhile isBlank

/-- Takes the end of a line off the front of a text. -/
def newline? : List Char → Option (List Char)
  | '\n' :: cs => some cs
  | '\r' :: '\n' :: cs => some cs
  | _ => none

/-- The character of a number of hexadecimal digits, and the rest. -/
def hexChar (count : Nat) (cs : List Char) : Option (Char × List Char) :=
  let ds := cs.take count
  if ds.length = count && ds.all (fun c => (hexDigitValue? c).isSome) then
    let n := digitsValue 16 ds
    if n < 0xD800 ∨ (0xE000 ≤ n ∧ n < 0x110000) then some (Char.ofNat n, cs.drop count) else none
  else none

/-- The character of an escape, after the backslash. -/
def readEscape : List Char → Option (Char × List Char)
  | 'b' :: cs => some ('\x08', cs)
  | 't' :: cs => some ('\t', cs)
  | 'n' :: cs => some ('\n', cs)
  | 'f' :: cs => some ('\x0c', cs)
  | 'r' :: cs => some ('\r', cs)
  | 'e' :: cs => some ('\x1b', cs)
  | '"' :: cs => some ('"', cs)
  | '\\' :: cs => some ('\\', cs)
  | 'x' :: cs => hexChar 2 cs
  | 'u' :: cs => hexChar 4 cs
  | 'U' :: cs => hexChar 8 cs
  | _ => none

/-- Reads a string on one line after its opening quote; `read` is what was read, in reverse. -/
def readLine (quote : Char) : Nat → List Char → List Char → Option (String × List Char)
  | 0, _, _ => none
  | fuel + 1, read, cs =>
    match cs with
    | [] => none
    | c :: cs =>
      if c = quote then some (String.ofList read.reverse, cs)
      else if c = '\\' ∧ quote = '"' then do
        let (c, cs) ← readEscape cs
        readLine quote fuel (c :: read) cs
      else if isControl c then none
      else readLine quote fuel (c :: read) cs

/-- The text after the blanks and ends of lines at its front. -/
def skipBreaks : List Char → List Char
  | '\r' :: '\n' :: cs => skipBreaks cs
  | c :: cs => if isBlank c || c = '\n' then skipBreaks cs else c :: cs
  | [] => []

/-- After a backslash at the end of a line: the text from the next character on that is no blank and
no end of a line. -/
def joinLines (cs : List Char) : Option (List Char) := (newline? (skipBlanks cs)).map skipBreaks

/-- Reads a string over several lines after its three opening quotes; the lines end in it as they do in
the text. Of more than three quotes at its end the first two at most belong to the string. -/
def readLines (quote : Char) : Nat → List Char → List Char → Option (String × List Char)
  | 0, _, _ => none
  | fuel + 1, read, cs =>
    match cs with
    | [] => none
    | c :: rest =>
      if c = quote then
        let run := cs.takeWhile (· == quote)
        let after := cs.dropWhile (· == quote)
        if run.length < 3 then readLines quote fuel (run ++ read) after
        else if 5 < run.length then none
        else some (String.ofList (read.reverse ++ run.drop 3), after)
      else if c = '\n' ∨ (c = '\r' ∧ rest.head? = some '\n') then
        readLines quote fuel (c :: read) rest
      else if c = '\\' ∧ quote = '"' then
        match joinLines rest with
        | some rest => readLines quote fuel read rest
        | none => do
          let (c, rest) ← readEscape rest
          readLines quote fuel (c :: read) rest
      else if isControl c then none
      else readLines quote fuel (c :: read) rest

/-- Reads a string in quotes; with `several` it may go over several lines. -/
def readString (several : Bool) (cs : List Char) : Option (String × List Char) :=
  match cs with
  | [] => none
  | quote :: rest =>
    if quote ≠ '"' ∧ quote ≠ '\'' then none
    else if several && rest.take 2 == [quote, quote] then
      let body := rest.drop 2
      readLines quote (body.length + 1) [] ((newline? body).getD body)
    else readLine quote (rest.length + 1) [] rest

/-- Digits with single underscores between them, without the underscores. -/
def plainDigits (isDigit : Char → Bool) : List Char → Option (List Char)
  | [] => none
  | [c] => if isDigit c then some [c] else none
  | c :: '_' :: cs => if isDigit c then (plainDigits isDigit cs).map (c :: ·) else none
  | c :: cs => if isDigit c then (plainDigits isDigit cs).map (c :: ·) else none

/-- Digits of a base after its prefix. -/
def prefixedInt (base : Nat) (cs : List Char) : Option Int :=
  let isDigit (c : Char) : Bool := ((hexDigitValue? c).map (fun d => decide (d < base))).getD false
  (plainDigits isDigit cs).map fun ds => (digitsValue base ds : Int)

/-- Decimal digits without needless zeros in front. -/
def wholeDigits (cs : List Char) : Option (List Char) := do
  let ds ← plainDigits isDecimalDigit cs
  if ds.head? = some '0' && ds.length ≠ 1 then none else some ds

/-- The integer that a word writes. -/
def intOf? (cs : List Char) : Option Int :=
  match cs with
  | '0' :: 'x' :: ds => prefixedInt 16 ds
  | '0' :: 'o' :: ds => prefixedInt 8 ds
  | '0' :: 'b' :: ds => prefixedInt 2 ds
  | _ =>
    let (negative, ds) := Numeral.splitSign cs
    (wholeDigits ds).map fun ds =>
      if negative then -(digitsValue 10 ds : Int) else (digitsValue 10 ds : Int)

/-- A digit or an underscore between digits. -/
def isDigitOrGap (c : Char) : Bool := isDecimalDigit c || c = '_'

/-- The exponent of a float, after its digits. -/
def exponentOf? : List Char → Option Int
  | [] => some 0
  | c :: cs =>
    if c = 'e' ∨ c = 'E' then do
      let (negative, cs) := Numeral.splitSign cs
      let ds ← plainDigits isDecimalDigit cs
      some (if negative then -(digitsValue 10 ds : Int) else (digitsValue 10 ds : Int))
    else none

/-- The float that a word writes; one beyond the largest double is refused. -/
def floatOf? (cs : List Char) : Option Binary64 :=
  let (negative, body) := Numeral.splitSign cs
  match body with
  | ['i', 'n', 'f'] => some (.infinity negative)
  | ['n', 'a', 'n'] => some (if negative then .neg .nan else .nan)
  | _ => do
    let whole ← wholeDigits (body.takeWhile isDigitOrGap)
    let rest := body.dropWhile isDigitOrGap
    let (fraction, rest) ← match rest with
      | '.' :: rest => do
        let ds ← plainDigits isDecimalDigit (rest.takeWhile isDigitOrGap)
        some (ds, rest.dropWhile isDigitOrGap)
      | rest => some ([], rest)
    let exponent ← exponentOf? rest
    let x := (Numeral.decimal negative whole fraction exponent).toBinary64
    if x.isFinite then some x else none

/-- The value of a bare word. Integers must fit 64 bits with their sign. -/
def scalarOf? (cs : List Char) : Option Data :=
  if cs = "true".toList then some (.bool true)
  else if cs = "false".toList then some (.bool false)
  else match intOf? cs with
    | some n => if isInt64 n then some (.int n) else none
    | none =>
      match floatOf? cs with
      | some x => some (.float x)
      | none => (readMoment? cs).map .text

/-- A character of a bare word. -/
def isWordChar (c : Char) : Bool := c.isAlphanum || "_+-.:".toList.contains c

/-- The text goes on with a blank and a time, as after a date. -/
def continuesWithTime (cs : List Char) : Bool :=
  match cs with
  | ' ' :: c :: d :: ':' :: _ => isDecimalDigit c && isDecimalDigit d
  | _ => false

/-- Reads a bare word; a date and a time may have one blank between them. -/
def readWord (cs : List Char) : Option (Data × List Char) := do
  let word := cs.takeWhile isWordChar
  let rest := cs.dropWhile isWordChar
  if continuesWithTime rest && (readDate word).isSome then
    let time := rest.drop 1
    let value ← scalarOf? (word ++ ' ' :: time.takeWhile isWordChar)
    some (value, time.dropWhile isWordChar)
  else
    let value ← scalarOf? word
    some (value, rest)

/-- A character of a bare key. -/
def isKeyChar (c : Char) : Bool := c.isAlphanum || c = '_' || c = '-'

/-- Reads one part of a key. -/
def readKeyPart (cs : List Char) : Option (String × List Char) :=
  match cs with
  | [] => none
  | c :: _ =>
    if c = '"' ∨ c = '\'' then readString false cs
    else
      let part := cs.takeWhile isKeyChar
      if part.isEmpty then none else some (String.ofList part, cs.dropWhile isKeyChar)

/-- Reads a key with the blanks around it and around its dots. -/
def readKeyParts : Nat → List Char → Option (List String × List Char)
  | 0, _ => none
  | fuel + 1, cs => do
    let (part, cs) ← readKeyPart (skipBlanks cs)
    match skipBlanks cs with
    | '.' :: cs => do
      let (parts, cs) ← readKeyParts fuel cs
      some (part :: parts, cs)
    | cs => some ([part], cs)

/-- A dotted key has at most so many parts, and as deep may values be nested. -/
def maxDepth : Nat := 80

/-- Reads a dotted key. -/
def readKey (cs : List Char) : Option (List String × List Char) := readKeyParts maxDepth cs

end Isolate.Toml
