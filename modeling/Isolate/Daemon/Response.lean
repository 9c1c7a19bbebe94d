import Isolate.Daemon.Frame
import Isolate.Json.Shape

/-!
# Answers of the daemon

* `Daemon.HttpResponse`: a status with a body, or a connection that carries the output of a command;
* `Daemon.accept`: the body of an answer, or the refusal that the answer is;
* `Daemon.containerOf`, `Daemon.execOf`, `Daemon.exitCodeOf`: what the bodies say.
-/

namespace Isolate.Daemon

open Json.Shape (required free)

/-- An answer of the daemon. -/
inductive HttpResponse where
  | plain (status : Nat) (body : String)
  /-- The connection carries frames. It stays open after them if `hangs` is set. -/
  | attached (bytes : Bytes) (hangs : Bool)

/-- The statuses of answers that are no refusals. -/
def isSuccess (status : Nat) : Bool :=
  (200 ≤ status && status < 300) || status == 304 || status == 101

/-- What a new container tells: its name and a list of warnings, or null for none. -/
def createdShape : Json.Shape :=
  .record [required "Id" .text, required "Warnings" (.optional (.list .text))]

/-- What a new command tells: its name. -/
def execShape : Json.Shape := .record [required "Id" .text]

/-- What a refusal tells: its reason. -/
def refusalShape : Json.Shape := .record [required "message" .text]

/-- How a command runs. -/
def processShape : Json.Shape :=
  .record [free "privileged" .truth, free "user" .text, free "tty" .truth,
    free "entrypoint" .text, free "arguments" (.list .text)]

/-- What the daemon tells about a command. -/
def inspectShape : Json.Shape :=
  .record [free "CanRemove" .truth, free "DetachKeys" .text, free "ID" .text,
    free "Running" .truth, free "ExitCode" .integer, free "ProcessConfig" processShape,
    free "OpenStdin" .truth, free "OpenStderr" .truth, free "OpenStdout" .truth,
    free "ContainerID" .text, free "Pid" .integer]

/-- The error for a body that cannot be read. -/
def faultOf : Json.Fault → DaemonError
  | .grammar => .unfit
  | .cutOff => .cutOff
  | .shape => .unfit

/-- The field of an object. -/
def fieldOf (key : String) : Data → Data
  | .table entries => (entries.lookup key).getD .null
  | _ => .null

/-- The text of a value, which is one by its shape. -/
def textOf : Data → String
  | .text s => s
  | _ => ""

/-- The document of a body. -/
def document (shape : Json.Shape) (body : String) : Except DaemonError Data :=
  match shape.read body with
  | .ok d => .ok d
  | .error fault => .error (faultOf fault)

/-- The error that a refusal is: its reason is the message of a document, or the whole body. A
document that ends too early tells nothing. -/
def refusal (status : Nat) (body : String) : DaemonError :=
  if body = "" then .status status ""
  else match refusalShape.read body with
    | .ok d => .status status (textOf (fieldOf "message" d))
    | .error .cutOff => .cutOff
    | .error _ => .status status body

/-- The body of an answer. -/
def accept : HttpResponse → Except DaemonError String
  | .plain status body => if isSuccess status then .ok body else .error (refusal status body)
  | .attached _ _ => .ok ""

/-- The document of an answer. -/
def answer (shape : Json.Shape) (r : HttpResponse) : Except DaemonError Data := do
  let body ← accept r
  document shape body

/-- The name of a new container. -/
def containerOf (r : HttpResponse) : Except DaemonError ContainerId := do
  let d ← answer createdShape r
  pure ⟨textOf (fieldOf "Id" d)⟩

/-- The name of a new command. -/
def execOf (r : HttpResponse) : Except DaemonError ExecId := do
  let d ← answer execShape r
  pure ⟨textOf (fieldOf "Id" d)⟩

/-- The exit code of a command, none while it is running. -/
def exitCodeOf (r : HttpResponse) : Except DaemonError (Option Int) := do
  let d ← answer inspectShape r
  match fieldOf "ExitCode" d with
  | .int n => pure (some n)
  | _ => pure none

/-- The output of a command that was started, and whether it stays open. -/
def outputOf : HttpResponse → Except DaemonError (List Chunk × Bool)
  | .attached bytes hangs => .ok ((Frame.decode bytes).filterMap Frame.chunk?, hangs)
  | .plain status body =>
    if isSuccess status then .error .notAttached else .error (refusal status body)

end Isolate.Daemon
