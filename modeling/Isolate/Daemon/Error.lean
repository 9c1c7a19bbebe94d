/-!
# What can go wrong between the engine and its daemon

* `DaemonError`: a refusal of the daemon, or an answer that makes no sense;
* `DaemonError.message`: the wording.
-/

namespace Isolate

/-- Why the daemon did not do what it was asked. -/
inductive DaemonError where
  /-- The daemon refused, with a status of 400 or more and a reason. -/
  | status (code : Nat) (reason : String)
  /-- There is no socket at the place where the daemon should listen. -/
  | noSocket
  /-- The daemon could not be reached. -/
  | unreachable
  /-- The answer is no JSON document or lacks what was asked for. -/
  | unfit
  /-- The answer is a document that ends too early, if it says anything at all. -/
  | cutOff
  /-- The daemon did not hand over the connection for a command's output. -/
  | notAttached
  deriving DecidableEq, Repr

/-- The wording of an error. -/
def DaemonError.message : DaemonError → String
  | .status code reason =>
    "Docker responded with status code " ++ toString code ++ ": " ++ reason
  | .noSocket => "the daemon's socket does not exist"
  | .unreachable => "the daemon cannot be reached"
  | .unfit => "the daemon's answer does not fit the request"
  | .cutOff => "the daemon's answer ends too early"
  | .notAttached => "the daemon did not hand over the connection"

end Isolate
