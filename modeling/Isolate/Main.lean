import Isolate.CommandLine.Plan
import Isolate.Daemon.Request

/-!
# The program

Carries out the plan of a command line with the files and the surroundings of the process. No transport
to a daemon is built in, so a command that needs one ends when it asks whether the daemon is there.
-/

namespace Isolate.Program

open CommandLine

/-- The fault behind a failed access to a file. -/
def faultOf : IO.Error → FileFault
  | .noFileOrDirectory .. => .missing
  | .inappropriateType _ code _ => if code = 21 then .isDirectory else .notDirectory
  | .noSuchThing .. => .missing
  | e => .refused (toString e)

/-- The content of a file. -/
def readFile (path : String) : IO (Except FileFault Bytes) := do
  match ← (IO.FS.readBinFile path).toBaseIO with
  | .ok content => pure (.ok content.toList)
  | .error e => pure (.error (faultOf e))

/-- Writes a file. -/
def writeFile (path text : String) : IO (Except FileFault Unit) := do
  match ← (IO.FS.writeFile path text).toBaseIO with
  | .ok _ => pure (.ok ())
  | .error e => pure (.error (faultOf e))

/-- Looks for the daemon where the configuration or the surroundings say. -/
def connect (host : Option String) : IO (Except DaemonError Unit) := do
  let surroundings := (← IO.getEnv "DOCKER_HOST").getD "unix:///var/run/docker.sock"
  let address := host.getD surroundings
  let found ← match Daemon.socketPath? address with
    | some path => do pure (Plan.isThere (← readFile path))
    | none => pure true
  pure (Daemon.connect (fun _ => found) address)

/-- Carries out a plan. -/
def perform : Plan → IO Report
  | .finish report => pure report
  | .read path next => do perform (next (← readFile path))
  | .write path text next => do perform (next (← writeFile path text))
  | .connect host next => do perform (next (← connect host))
  | .ping next => perform (next (.error .unreachable))
  | .run _ _ next => perform (next (.error (.provision (.daemon .unreachable))))
  | .bench _ _ _ _ next => perform (next none)

end Isolate.Program

open Isolate in
/-- Carries out the command line. -/
def main (arguments : List String) : IO UInt32 := do
  let report ← Program.perform (.ofArguments arguments)
  IO.print report.stdout
  IO.eprint report.stderr
  pure report.status.toUInt32
