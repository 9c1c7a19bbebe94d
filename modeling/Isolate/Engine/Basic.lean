import Isolate.Archive.Pack
import Isolate.Container
import Isolate.Daemon.Error

/-!
# The container engine

The engine creates, fills, uses and removes containers. Here stand the calls that it is asked to
carry out and what it may answer; any answer may come after any time.

* `Call`: what the engine is asked to do;
* `Reply`: an answer to a call, or the next piece of a command's output;
* `EngineError`: why a call failed.
-/

namespace Isolate

/-- Why a call of the engine failed. -/
inductive EngineError where
  | daemon (error : DaemonError)
  /-- The files to be uploaded could not be packed. -/
  | archive (error : Archive.PackError)
  /-- A command was started without its output attached. -/
  | detached (exec : ExecId)
  | reported (message : String)
  deriving DecidableEq, Repr

/-- The wording of an error. -/
def EngineError.message : EngineError → String
  | .daemon error => "docker error: " ++ error.message
  | .archive error => "failed to build archive: " ++ error.message
  | .detached exec => "exec session " ++ exec.text ++ " started detached"
  | .reported message => "engine error: " ++ message

/-- The wording of the error behind an error, if there is one. -/
def EngineError.cause? : EngineError → Option String
  | .daemon error => some error.message
  | .archive error => some error.message
  | .detached _ => none
  | .reported _ => none

/-- A piece of a command's output. -/
inductive Chunk where
  | stdout (bytes : Bytes)
  | stderr (bytes : Bytes)
  deriving DecidableEq, Repr

/-- What the engine is asked to do. -/
inductive Call where
  | create (spec : ContainerSpec)
  | start (id : ContainerId)
  /-- Unpacks an archive in a directory of a container. -/
  | upload (id : ContainerId) (dir : String) (archive : Bytes)
  /-- Runs a command in a container with its output attached. -/
  | exec (id : ContainerId) (argv : List String)
  /-- Asks for the exit code of a command. -/
  | exitCode (exec : ExecId)
  | remove (id : ContainerId)
  deriving DecidableEq, Repr

/-- What the engine answers. -/
inductive Reply where
  /-- To `create`. -/
  | created (result : Except EngineError ContainerId)
  /-- To `start`, `upload` and `remove`. -/
  | done (result : Except EngineError Unit)
  /-- To `exec`. -/
  | opened (result : Except EngineError ExecId)
  /-- The next piece of output, or a failure to read it. -/
  | output (result : Except EngineError Chunk)
  /-- There is no more output. -/
  | ended
  /-- To `exitCode`; none while the command is still running. -/
  | code (result : Except EngineError (Option Int))

/-- What a waiting task may be told. -/
inductive Signal where
  /-- The answer that it waits for. -/
  | reply (r : Reply)
  /-- The moment that it waits for has come. -/
  | timer
  /-- The sign to stop has been given. -/
  | notice
  /-- There is nothing to wait for. -/
  | proceed

/-- What a task does next: it goes on from a new state, or it is finished with a result. -/
inductive Progress (σ ρ : Type) where
  | going (state : σ)
  | finished (result : ρ)

end Isolate
