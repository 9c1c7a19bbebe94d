import Isolate.Json.Decoder
import Isolate.Request.Basic

/-!
# Requests as JSON

A request is written as a JSON object, or as a list of its fields in order. The reader goes through
the text once and stops at the first fault, so that it can tell a text that is no JSON from one that
is no request:

* `Request.request`: reads a request;
* `Request.ofJson`: the request of a text.
-/

namespace Isolate.Request

open Json

/-- Reads a 64-bit count. -/
def count64 (cs : List Char) : Except Fault (UInt64 × List Char) := do
  let (n, cs) ← readCount bound64 cs
  pure (UInt64.ofNat n, cs)

/-- The duration of two counts, if the carry of the nanoseconds does not overflow the seconds. -/
def durationOf (secs nanos : Nat) : Except Fault Duration :=
  match Duration.ofParts? secs nanos with
  | some d => .ok d
  | none => .error .shape

/-- Reads the entries of a duration; each key occurs once and no other key does. -/
def durationEntries :
    Nat → Bool → Option Nat → Option Nat → List Char → Except Fault (Duration × List Char)
  | 0, _, _, _, _ => .error .grammar
  | fuel + 1, first, secs, nanos, cs => do
    let (key, rest) ← nextKey first cs
    match key with
    | none =>
      match secs, nanos with
      | some secs, some nanos => (durationOf secs nanos).map (·, rest)
      | _, _ => .error .shape
    | some "secs" =>
      if secs.isSome then .error .shape
      else
        let rest ← colon rest
        let (n, rest) ← readCount bound64 rest
        durationEntries fuel false (some n) nanos rest
    | some "nanos" =>
      if nanos.isSome then .error .shape
      else
        let rest ← colon rest
        let (n, rest) ← readCount 4294967296 rest
        durationEntries fuel false secs (some n) rest
    | some _ => .error .shape

/-- Reads an item that may be missing or null. -/
def optionalItem {α : Type} (read : List Char → Except Fault (α × List Char)) (cs : List Char) :
    Except Fault (Option α × List Char) := do
  let (more, cs) ← nextItem false cs
  if more then readOptional read cs else pure (none, cs)

/-- Reads a duration: an object of seconds and nanoseconds, or a list of the two. -/
def duration (cs : List Char) : Except Fault (Duration × List Char) :=
  match skipBlanks cs with
  | '[' :: cs => do
    let (secs, cs) ← requiredItem true (readCount bound64) cs
    let (nanos, cs) ← requiredItem false (readCount 4294967296) cs
    let d ← durationOf secs nanos
    let cs ← endList cs
    pure (d, cs)
  | '{' :: cs => durationEntries (cs.length + 1) true none none cs
  | cs => refuse cs

/-- The fields of a request read so far. -/
structure Partial where
  language : Option String
  code : Option String
  stdin : Option (Option String)
  time : Option (Option Duration)
  memory : Option (Option UInt64)

/-- The request of the fields; language and code must have been given. -/
def Partial.finish (p : Partial) : Except Fault Request :=
  match p.language, p.code with
  | some language, some code =>
    .ok ⟨language, code, p.stdin.getD none, p.time.getD none, p.memory.getD none⟩
  | _, _ => .error .shape

/-- Reads the value of a field that was not given before. -/
def field {α β : Type} (given : Option α) (read : List Char → Except Fault (β × List Char))
    (cs : List Char) : Except Fault (β × List Char) :=
  if given.isSome then .error .shape
  else do
    let cs ← colon cs
    read cs

/-- Reads the entries of a request; fields that are not known are passed over. -/
def requestEntries : Nat → Bool → Partial → List Char → Except Fault (Request × List Char)
  | 0, _, _, _ => .error .grammar
  | fuel + 1, first, p, cs => do
    let (key, rest) ← nextKey first cs
    match key with
    | none => p.finish.map (·, rest)
    | some "language" =>
      let (v, rest) ← field p.language readText rest
      requestEntries fuel false { p with language := some v } rest
    | some "code" =>
      let (v, rest) ← field p.code readText rest
      requestEntries fuel false { p with code := some v } rest
    | some "stdin" =>
      let (v, rest) ← field p.stdin (readOptional readText) rest
      requestEntries fuel false { p with stdin := some v } rest
    | some "time_limit" =>
      let (v, rest) ← field p.time (readOptional duration) rest
      requestEntries fuel false { p with time := some v } rest
    | some "memory_limit" =>
      let (v, rest) ← field p.memory (readOptional count64) rest
      requestEntries fuel false { p with memory := some v } rest
    | some _ =>
      let rest ← colon rest
      let rest ← passValue rest
      requestEntries fuel false p rest

/-- Reads a request. -/
def request (cs : List Char) : Except Fault (Request × List Char) :=
  match skipBlanks cs with
  | '{' :: cs => requestEntries (cs.length + 1) true ⟨none, none, none, none, none⟩ cs
  | '[' :: cs => do
    let (language, cs) ← requiredItem true readText cs
    let (code, cs) ← requiredItem false readText cs
    let (stdin, cs) ← optionalItem readText cs
    let (time, cs) ← optionalItem duration cs
    let (memory, cs) ← optionalItem count64 cs
    let cs ← endList cs
    pure (⟨language, code, stdin, time, memory⟩, cs)
  | cs => refuse cs

/-- The request of a JSON text. -/
def ofJson (json : String) : Except Fault Request := do
  let (r, rest) ← request json.toList
  if (skipBlanks rest).isEmpty then pure r else .error .grammar

end Isolate.Request
