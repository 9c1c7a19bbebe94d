import Isolate.Engine.Basic

/-!
# Failures of runs

* `RunError`: which phase of a run failed and why; a submission that does not compile, crashes or
  runs out of time is no failure of its run.
-/

namespace Isolate

/-- Why a run has no outcome. -/
inductive RunError where
  | unsupported (language : String)
  | provision (error : EngineError)
  | transfer (error : EngineError)
  | exec (error : EngineError)
  | output (error : EngineError)
  | inspect (error : EngineError)
  | cancelled
  deriving DecidableEq, Repr

namespace RunError

/-- The failure of the engine behind a failure of a run. -/
def cause? : RunError → Option EngineError
  | .unsupported _ => none
  | .provision e => some e
  | .transfer e => some e
  | .exec e => some e
  | .output e => some e
  | .inspect e => some e
  | .cancelled => none

/-- What failed, without the reason. -/
def phase : RunError → String
  | .unsupported language => "unsupported language '" ++ language ++ "'"
  | .provision _ => "failed to provision container"
  | .transfer _ => "failed to copy files into container"
  | .exec _ => "failed to start exec session"
  | .output _ => "failed to read exec output"
  | .inspect _ => "failed to inspect exec session"
  | .cancelled => "execution cancelled"

/-- The wording of a failure. -/
def message (e : RunError) : String :=
  match e.cause? with
  | some cause => e.phase ++ ": " ++ cause.message
  | none => e.phase

end RunError

end Isolate
