import Isolate.Json.Printer
import Isolate.Time

/-!
# Outcomes of a run

* `Outcome`: what a submission wrote, how it ended and how long it took;
* `Outcome.isSuccess`: it finished in time with exit code zero;
* `Outcome.toData`: the outcome as a tree, to be shown as JSON.
-/

namespace Isolate

/-- The exit code of a run that was stopped at its time limit. -/
def timeoutExitCode : Int := 124

/-- What became of a submission. -/
structure Outcome where
  stdout : String
  stderr : String
  exitCode : Int
  /-- From the start of the command to its end or to the time limit. -/
  timeUsed : Duration
  /-- Memory is not measured; always zero. -/
  memoryUsed : UInt64
  timedOut : Bool
  deriving DecidableEq

namespace Outcome

/-- The submission finished in time and reported no failure. -/
def isSuccess (o : Outcome) : Bool := !o.timedOut && o.exitCode == 0

/-- The outcome as a tree. -/
def toData (o : Outcome) : Data :=
  .table [
    ("stdout", .text o.stdout),
    ("stderr", .text o.stderr),
    ("exit_code", .int o.exitCode),
    ("time_used", .table [("secs", .int o.timeUsed.seconds), ("nanos", .int o.timeUsed.subsecond)]),
    ("memory_used", .int o.memoryUsed.toNat),
    ("timed_out", .bool o.timedOut)]

end Outcome

end Isolate
