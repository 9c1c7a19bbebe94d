import Isolate.Json.Token

/-!
# Reading JSON for a purpose

Who knows what a document should say goes through the text once and stops at the first fault, whether
the text is no JSON there or JSON of another shape:

* `Json.readTruth`, `Json.readText`, `Json.readInteger`, `Json.readCount`, `Json.readOptional`: read a value of a kind;
* `Json.refuse`: the fault of a value of another kind;
* `Json.nextItem`, `Json.nextKey`: go through a list or an object;
* `Json.passValue`: passes over the value of a field that is not known.
-/

namespace Isolate.Json

/-- Reads the word of which the first letter was seen, and refuses it. -/
def refuseWord {α : Type} (word : String) (cs : List Char) : Except Fault (α × List Char) := do
  let _ ← expectWord word.toList cs
  .error .shape

/-- Refuses the value at the front of a text. A word, a number or a string is read to its end first
and may turn out not to be one. -/
def refuse {α : Type} (cs : List Char) : Except Fault (α × List Char) :=
  match cs with
  | 'n' :: cs => refuseWord "ull" cs
  | 't' :: cs => refuseWord "rue" cs
  | 'f' :: cs => refuseWord "alse" cs
  | '"' :: cs => do
    let _ ← readString cs
    .error .shape
  | '[' :: _ => .error .shape
  | '{' :: _ => .error .shape
  | c :: cs =>
    if c = '-' ∨ isDecimalDigit c then do
      let _ ← readNumber Numeral.float? (c :: cs)
      .error .shape
    else .error .grammar
  | [] => .error .cutOff

/-- Reads a truth value. -/
def readTruth (cs : List Char) : Except Fault (Bool × List Char) :=
  match skipBlanks cs with
  | 't' :: cs => (expectWord "rue".toList cs).map (true, ·)
  | 'f' :: cs => (expectWord "alse".toList cs).map (false, ·)
  | cs => refuse cs

/-- Reads a string. -/
def readText (cs : List Char) : Except Fault (String × List Char) :=
  match skipBlanks cs with
  | '"' :: cs => readString cs
  | cs => refuse cs

/-- Reads an integer. -/
def readInteger (cs : List Char) : Except Fault (Int × List Char) :=
  match skipBlanks cs with
  | [] => .error .cutOff
  | c :: cs =>
    if c = '-' ∨ isDecimalDigit c then do
      let (value, rest) ← readNumber Numeral.float? (c :: cs)
      match value with
      | .int n => pure (n, rest)
      | _ => .error .shape
    else refuse (c :: cs)

/-- Reads an integer from zero up to but not including the bound. -/
def readCount (bound : Nat) (cs : List Char) : Except Fault (Nat × List Char) := do
  let (n, rest) ← readInteger cs
  if 0 ≤ n ∧ n < bound then pure (n.toNat, rest) else .error .shape

/-- Reads null or a value. -/
def readOptional {α : Type} (read : List Char → Except Fault (α × List Char)) (cs : List Char) :
    Except Fault (Option α × List Char) :=
  match skipBlanks cs with
  | 'n' :: cs => (expectWord "ull".toList cs).map (none, ·)
  | cs => (read cs).map fun (a, cs) => (some a, cs)

/-- Moves to the next item of a list, or past its end. -/
def nextItem (first : Bool) (cs : List Char) : Except Fault (Bool × List Char) :=
  match skipBlanks cs with
  | ']' :: _ => .ok (false, skipBlanks cs)
  | ',' :: cs =>
    if first then .ok (true, ',' :: cs)
    else match skipBlanks cs with
      | ']' :: _ => .error .grammar
      | [] => .error .cutOff
      | cs => .ok (true, cs)
  | [] => .error .cutOff
  | cs => if first then .ok (true, cs) else .error .grammar

/-- Reads the end of a list. -/
def endList (cs : List Char) : Except Fault (List Char) :=
  match skipBlanks cs with
  | ']' :: cs => .ok cs
  | cs => .error (stray cs)

/-- Moves to the key of the next entry of an object and reads it with its colon, or stops at the end
of the object. -/
def nextKey (first : Bool) (cs : List Char) : Except Fault (Option String × List Char) :=
  let keyAt (cs : List Char) : Except Fault (Option String × List Char) :=
    match cs with
    | '"' :: cs => (readString cs).map fun (key, cs) => (some key, cs)
    | cs => .error (stray cs)
  match skipBlanks cs with
  | '}' :: cs => .ok (none, cs)
  | ',' :: cs => if first then .error .grammar else keyAt (skipBlanks cs)
  | cs => if first then keyAt cs else .error (stray cs)

/-- Reads the colon after a key. -/
def colon (cs : List Char) : Except Fault (List Char) :=
  match skipBlanks cs with
  | ':' :: cs => .ok cs
  | cs => .error (stray cs)

/-- What is open around the place of the reader. -/
inductive Frame where
  | list
  | table
  deriving DecidableEq, Repr

/-- Passes over the rest of the open lists and objects. With `wanted` the place is before a value,
else after one; `fuel` bounds the steps. -/
def passFrom : Nat → List Frame → Bool → List Char → Except Fault (List Char)
  | 0, _, _, _ => .error .grammar
  | fuel + 1, frames, true, cs =>
    match skipBlanks cs with
    | '[' :: cs =>
      match skipBlanks cs with
      | ']' :: cs => passFrom fuel frames false cs
      | cs => passFrom fuel (.list :: frames) true cs
    | '{' :: cs =>
      match skipBlanks cs with
      | '}' :: cs => passFrom fuel frames false cs
      | '"' :: cs => do
        let cs ← passString cs
        let cs ← colon cs
        passFrom fuel (.table :: frames) true cs
      | cs => .error (stray cs)
    | '"' :: cs => do
      let cs ← passString cs
      passFrom fuel frames false cs
    | 'n' :: cs => do
      let cs ← expectWord "ull".toList cs
      passFrom fuel frames false cs
    | 't' :: cs => do
      let cs ← expectWord "rue".toList cs
      passFrom fuel frames false cs
    | 'f' :: cs => do
      let cs ← expectWord "alse".toList cs
      passFrom fuel frames false cs
    | c :: cs =>
      if c = '-' ∨ isDecimalDigit c then do
        let cs ← passNumber (c :: cs)
        passFrom fuel frames false cs
      else .error .grammar
    | [] => .error .cutOff
  | _ + 1, [], false, cs => .ok cs
  | fuel + 1, .list :: frames, false, cs =>
    match skipBlanks cs with
    | ',' :: cs => passFrom fuel (.list :: frames) true cs
    | ']' :: cs => passFrom fuel frames false cs
    | cs => .error (stray cs)
  | fuel + 1, .table :: frames, false, cs =>
    match skipBlanks cs with
    | ',' :: cs =>
      match skipBlanks cs with
      | '"' :: cs => do
        let cs ← passString cs
        let cs ← colon cs
        passFrom fuel (.table :: frames) true cs
      | cs => .error (stray cs)
    | '}' :: cs => passFrom fuel frames false cs
    | cs => .error (stray cs)

/-- Passes over a value of any depth. -/
def passValue (cs : List Char) : Except Fault (List Char) :=
  passFrom (2 * cs.length + 2) [] true cs

/-- Reads an item that must be there. -/
def requiredItem {α : Type} (first : Bool) (read : List Char → Except Fault (α × List Char))
    (cs : List Char) : Except Fault (α × List Char) := do
  let (more, cs) ← nextItem first cs
  if more then read cs else .error .shape

end Isolate.Json
