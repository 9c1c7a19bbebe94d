import Isolate.Capture
import Isolate.Engine.Removal
import Isolate.Outcome
import Isolate.Run.Error

/-!
# Executing a command

An execution opens a command in a container, gathers its output until the output ends or the time
limit is over, and asks for the exit code:

* `Execution.begin`: an execution about to open its command, or nothing at all if it was cancelled
  before;
* `Execution.step`: what a signal does. While the command is opened or its output is gathered a
  cancellation goes before everything else; the time limit is looked at only while output is
  gathered.
-/

namespace Isolate

namespace Execution

/-- What is known once the output has ended. -/
structure Ending where
  exec : ExecId
  stdout : Capture
  stderr : Capture
  timeUsed : Duration

/-- How far an execution has come. -/
inductive Point where
  /-- The engine was asked to run the command. -/
  | opening
  /-- The output comes in. -/
  | collecting (exec : ExecId) (stdout stderr : Capture)
  /-- The engine was asked for the exit code, for the so many-th time. -/
  | inspecting (ending : Ending) (attempt : Nat)
  /-- The command was still running; the next attempt is made later. -/
  | pausing (ending : Ending) (attempt : Nat) (wake : Instant)

end Execution

/-- An execution under way. -/
structure Execution where
  container : ContainerId
  argv : List String
  /-- The most bytes kept of each output stream. -/
  cap : Nat
  started : Instant
  /-- When the time limit is over; none if the clock cannot show that moment. -/
  deadline : Option Instant
  point : Execution.Point

namespace Execution

/-- The result of an execution. -/
abbrev Result := Except RunError Outcome

/-- How often the exit code is asked for while the command is said to be running. -/
def attemptLimit : Nat := 5

/-- How long to wait before the exit code is asked for again. -/
def pause : Duration := .ofMillis 20

/-- Shown after the error output of a command that was stopped at its time limit. -/
def timeoutNotice : String := "\nExecution timed out."

/-- An execution that starts now. -/
def begin (now : Instant) (container : ContainerId) (argv : List String) (limit : Duration)
    (cap : Nat) (cancelled : Bool) : Progress Execution Result :=
  if cancelled then .finished (.error .cancelled)
  else .going ⟨container, argv, cap, now, now.after? limit, .opening⟩

/-- What the engine is asked on the way into a state. -/
def call? (x : Execution) : Option Call :=
  match x.point with
  | .opening => some (.exec x.container x.argv)
  | .collecting _ _ _ => none
  | .inspecting ending _ => some (.exitCode ending.exec)
  | .pausing _ _ _ => none

/-- The moment that is waited for. -/
def wake? (x : Execution) : Option Instant :=
  match x.point with
  | .opening => none
  | .collecting _ _ _ => x.deadline
  | .inspecting _ _ => none
  | .pausing _ _ wake => some wake

/-- The captures with one more piece of output. -/
def gather (stdout stderr : Capture) : Chunk → Capture × Capture
  | .stdout bytes => (stdout.push bytes, stderr)
  | .stderr bytes => (stdout, stderr.push bytes)

/-- The exit code given for a command is none. -/
def outOfRange (exec : ExecId) (code : Int) : RunError :=
  .inspect (.reported ("exec " ++ exec.text ++ " reported out-of-range exit code " ++ toString code))

/-- The command is said to be running although its output has ended. -/
def noExitCode (exec : ExecId) : RunError :=
  .inspect (.reported ("exec " ++ exec.text ++ " reported no exit code"))

/-- The outcome of a command that ended. -/
def Ending.outcome (ending : Ending) (code : Int) : Outcome where
  stdout := ending.stdout.text
  stderr := ending.stderr.text
  exitCode := code
  timeUsed := ending.timeUsed
  memoryUsed := 0
  timedOut := false

/-- The outcome of a command that was stopped at its time limit. -/
def Ending.timeout (ending : Ending) : Outcome where
  stdout := ending.stdout.text
  stderr := ending.stderr.text ++ timeoutNotice
  exitCode := timeoutExitCode
  timeUsed := ending.timeUsed
  memoryUsed := 0
  timedOut := true

/-- What follows from an answer about the exit code. Exit codes have 32 bits. -/
def inspected (now : Instant) (x : Execution) (ending : Ending) (attempt : Nat) :
    Except EngineError (Option Int) → Progress Execution Result
  | .error e => .finished (.error (.inspect e))
  | .ok (some code) =>
    if isInt32 code then .finished (.ok (ending.outcome code))
    else .finished (.error (outOfRange ending.exec code))
  | .ok none =>
    if attempt < attemptLimit then
      .going { x with point := .pausing ending attempt (now.after pause) }
    else .finished (.error (noExitCode ending.exec))

/-- What a signal does to an execution. -/
def step (now : Instant) (cancelled : Bool) (x : Execution) (s : Signal) :
    Option (Progress Execution Result) :=
  match x.point, cancelled, s with
  | .opening, true, .notice => some (.finished (.error .cancelled))
  | .opening, false, .reply (.opened (.ok exec)) =>
    some (.going { x with point := .collecting exec (.empty x.cap) (.empty x.cap) })
  | .opening, false, .reply (.opened (.error e)) => some (.finished (.error (.exec e)))
  | .collecting _ _ _, true, .notice => some (.finished (.error .cancelled))
  | .collecting exec stdout stderr, false, .reply (.output (.ok chunk)) =>
    let (stdout, stderr) := gather stdout stderr chunk
    some (.going { x with point := .collecting exec stdout stderr })
  | .collecting _ _ _, false, .reply (.output (.error e)) => some (.finished (.error (.output e)))
  | .collecting exec stdout stderr, false, .reply .ended =>
    some (.going { x with
      point := .inspecting ⟨exec, stdout, stderr, x.started.since now⟩ 1 })
  | .collecting exec stdout stderr, false, .timer =>
    if x.deadline.any (· ≤ now) then
      some (.finished (.ok (Ending.timeout ⟨exec, stdout, stderr, x.started.since now⟩)))
    else none
  | .inspecting ending attempt, _, .reply (.code answer) =>
    some (inspected now x ending attempt answer)
  | .pausing ending attempt wake, _, .timer =>
    if wake ≤ now then some (.going { x with point := .inspecting ending (attempt + 1) }) else none
  | _, _, _ => none

end Execution

end Isolate
