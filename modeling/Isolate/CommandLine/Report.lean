import Isolate.Config.Builtin
import Isolate.Outcome
import Isolate.Run.Error

/-!
# What the command line prints

* `Report`: status and texts at the end of a command;
* `Failure`: why a command came to nothing, with the reasons behind it;
* `Report.ofOutcome`: the report on a run; its status is what is left of the exit code;
* `Bench`, `Report.ofBench`: many runs of one file and the report on them;
* `Report.ofLanguages`, `Report.ofConfig`: what is configured.
-/

namespace Isolate.CommandLine

/-- The end of a command. -/
structure Report where
  status : UInt8
  stdout : String
  stderr : String
  deriving DecidableEq, Repr

/-- Why a file cannot be used. -/
inductive FileFault where
  | missing
  | isDirectory
  | notDirectory
  /-- The content is no text. -/
  | notText
  | refused (reason : String)
  deriving DecidableEq, Repr

/-- The wording of a fault. -/
def FileFault.message : FileFault → String
  | .missing => "No such file or directory (os error 2)"
  | .isDirectory => "Is a directory (os error 21)"
  | .notDirectory => "Not a directory (os error 20)"
  | .notText => "stream did not contain valid UTF-8"
  | .refused reason => reason

/-- Why a command came to nothing. -/
structure Failure where
  message : String
  /-- The reasons, each because of the next. -/
  causes : List String
  deriving DecidableEq, Repr

namespace Failure

/-- A text whose lines after the first are indented. -/
def hang (indent : String) (s : String) : String :=
  String.ofList (s.toList.flatMap fun c => if c = '\n' then c :: indent.toList else [c])

/-- A number, flush right. -/
def flushRight (width : Nat) (s : String) : String :=
  String.ofList (List.replicate (width - s.length) ' ' ++ s.toList)

/-- The lines of several reasons, counted from a number. -/
def numbered (n : Nat) : List String → String
  | [] => ""
  | cause :: causes =>
    flushRight 5 (toString n) ++ ": " ++ hang "       " cause ++ "\n" ++ numbered (n + 1) causes

/-- What is shown of a failure. Several reasons are numbered. -/
def text (f : Failure) : String :=
  "Error: " ++ f.message ++ "\n" ++ match f.causes with
    | [] => ""
    | [cause] => "\nCaused by:\n    " ++ hang "    " cause ++ "\n"
    | causes => "\nCaused by:\n" ++ numbered 0 causes

/-- A failure because of a file. -/
def ofFile (message : String) (fault : FileFault) : Failure := ⟨message, [fault.message]⟩

/-- A failure because of the engine. -/
def ofEngine (message : String) (e : EngineError) : Failure :=
  ⟨message, e.message :: e.cause?.toList⟩

/-- A failure because of a run. -/
def ofRun (message : String) (e : RunError) : Failure :=
  ⟨message, e.message :: match e.cause? with
    | some cause => cause.message :: cause.cause?.toList
    | none => []⟩

end Failure

namespace Report

/-- A command that did what it was asked for. -/
def success (stdout : String) : Report := ⟨0, stdout, ""⟩

/-- A command that came to nothing. -/
def failure (f : Failure) : Report := ⟨1, "", f.text⟩

/-- The status that the parent of this program sees for an exit code: its low eight bits. -/
def statusOf (code : Int) : UInt8 := UInt8.ofNat (code % 256).toNat

/-- The status after a run that has an outcome. -/
def statusOfOutcome (o : Outcome) : UInt8 := if o.isSuccess then 0 else statusOf o.exitCode

/-- The report on a run: what the submission wrote, or all of its outcome as JSON. -/
def ofOutcome (json : Bool) (o : Outcome) : Report :=
  if json then ⟨statusOfOutcome o, Json.pretty o.toData ++ "\n", ""⟩
  else ⟨statusOfOutcome o, o.stdout, o.stderr⟩

/-- The report on a run that may have failed. -/
def ofRun (json : Bool) : Except RunError Outcome → Report
  | .ok o => ofOutcome json o
  | .error e => failure (.ofRun "execution failed" e)

/-- Texts in the order of their characters. -/
def sorted {α : Type} (entries : List (String × α)) : List (String × α) :=
  entries.mergeSort fun a b => !(b.1 < a.1)

/-- A text filled up with blanks on the right. -/
def flushLeft (width : Nat) (s : String) : String :=
  String.ofList (s.toList ++ List.replicate (width - s.length) ' ')

/-- The line of a language. -/
def languageLine (id : String) (p : Profile) : String :=
  "  " ++ flushLeft 15 id ++ " " ++ p.image ++ (if p.isCompiled then " (compiled)" else " (interpreted)")
    ++ "\n"

/-- The languages of a configuration, in the order of their ids. -/
def ofLanguages (c : Config) : Report :=
  success ("Available languages:\n\n" ++
    String.join ((sorted c.languages).map fun (id, p) => languageLine id p))

/-- Null for what is not set. -/
def orNull {α : Type} (f : α → Data) : Option α → Data
  | some a => f a
  | none => .null

/-- A profile as a tree. -/
def profileData (p : Profile) : Data :=
  .table [
    ("image", .text p.image),
    ("source_file", .text p.sourceFile.name),
    ("compile_cmd", orNull .texts p.compile),
    ("run_cmd", .texts p.run),
    ("memory_limit", orNull (fun n => .int n.toNat) p.memory),
    ("time_limit", orNull .float p.time)]

/-- The languages of a configuration as a tree. -/
def languagesData (c : Config) : Data :=
  .table ((sorted c.languages).map fun (id, p) => (id, profileData p))

/-- All that is configured. -/
def ofConfig (c : Config) : Report :=
  success ("Docker host: " ++ c.host.getD "(local default)" ++ "\n" ++
    "Warm pool size: " ++ toString c.pool.size.toNat ++ "\n" ++
    "Max output: " ++ toString c.maxOutput.toNat ++ " bytes per stream\n" ++
    "Fallback time limit: " ++ c.fallbackTime.text .plain ++ "s\n\n" ++
    "Languages configured: " ++ toString c.languages.length ++ "\n\n" ++
    Json.pretty (languagesData c) ++ "\n")

end Report

/-! ### Many runs -/

/-- One of many runs. -/
structure Trial where
  number : Nat
  latency : Duration
  result : Except RunError Outcome

/-- Many runs, in the order in which they ended. -/
structure Bench where
  trials : List Trial
  /-- From the beginning of the first run to the end of the last one. -/
  total : Duration

namespace Bench

/-- A quotient with so many places after the point, rounded to the nearest with ties to even. -/
def fixed (places num den : Nat) : String :=
  let n := divNearestEven (num * Nat.pow 10 places) den
  let fraction := toString (n % Nat.pow 10 places)
  toString (n / Nat.pow 10 places) ++ "." ++
    String.ofList (List.replicate (places - fraction.length) '0') ++ fraction

/-- Milliseconds with one place. -/
def millis (d : Duration) : String := fixed 1 d.nanos nanosPerMilli

/-- The line of one run. -/
def line (t : Trial) : String :=
  "run " ++ Failure.flushRight 4 (toString t.number) ++ ": " ++ (match t.result with
    | .ok o => Failure.flushRight 8 (millis t.latency) ++ " ms  exit " ++ toString o.exitCode
    | .error e => "error: " ++ e.message) ++ "\n"

/-- The latencies of the runs that have an outcome. -/
def latencies (b : Bench) : List Duration :=
  b.trials.filterMap fun t => match t.result with
    | .ok _ => some t.latency
    | .error _ => none

/-- The sum of latencies in nanoseconds. -/
def sum (ds : List Duration) : Nat := ds.foldl (fun n d => n + d.nanos) 0

/-- The least and the greatest of latencies in nanoseconds. -/
def bounds (d : Duration) (ds : List Duration) : Nat × Nat :=
  ds.foldl (fun (low, high) d => (min low d.nanos, max high d.nanos)) (d.nanos, d.nanos)

/-- The lines at the end; there are none if no run has an outcome. -/
def summary (b : Bench) : String :=
  match b.latencies with
  | [] => ""
  | d :: ds =>
    let (low, high) := bounds d ds
    let mean := sum (d :: ds) / (d :: ds).length
    "\n" ++ toString b.trials.length ++ " runs in " ++ fixed 2 b.total.nanos nanosPerSecond ++ "s, " ++
      toString (b.trials.length - (d :: ds).length) ++ " failed\n" ++
      "latency min " ++ fixed 1 low nanosPerMilli ++ " ms, mean " ++ fixed 1 mean nanosPerMilli ++
      " ms, max " ++ fixed 1 high nanosPerMilli ++ " ms\n"

end Bench

/-- The report on many runs. -/
def Report.ofBench (b : Bench) : Report :=
  .success (String.join (b.trials.map Bench.line) ++ b.summary)

end Isolate.CommandLine
