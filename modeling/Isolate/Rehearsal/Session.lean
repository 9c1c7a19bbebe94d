import Isolate.CommandLine.Plan
import Isolate.Daemon.Request
import Isolate.Rehearsal.Trials

/-!
# Rehearsing a command line

Carries out the plan of a command in a directory of its own, with a scripted daemon behind a socket.

* `Location`: what a path leads to;
* `Session`: the files, the socket and the daemon;
* `Session.perform`: the report of a plan, and the session after it.
-/

namespace Isolate

open CommandLine

/-- What a path leads to: steps from the root or from the working directory. -/
structure Location where
  absolute : Bool
  steps : List String
  deriving DecidableEq, Repr

namespace Location

/-- Takes a step; two dots lead back. -/
def walk (absolute : Bool) (steps : List String) (step : String) : List String :=
  if step = "" ∨ step = "." then steps
  else if step = ".." then
    match steps.getLast? with
    | some ".." => steps ++ [step]
    | some _ => steps.dropLast
    | none => if absolute then [] else [step]
  else steps ++ [step]

/-- The place of a path. -/
def ofPath (path : String) : Location :=
  let absolute := path.startsWith "/"
  ⟨absolute, (path.splitOn "/").foldl (walk absolute) []⟩

/-- The directory that holds a place. -/
def parent (p : Location) : Location := ⟨p.absolute, walk p.absolute p.steps ".."⟩

/-- The second place lies somewhere under the first. -/
def isAbove (p q : Location) : Bool :=
  p.absolute == q.absolute && p.steps.length < q.steps.length && p.steps.isPrefixOf q.steps

/-- The path of a place. -/
def path (p : Location) : String := (if p.absolute then "/" else "") ++ "/".intercalate p.steps

end Location

/-- Where a command line is rehearsed. -/
structure Session where
  files : List (Location × Bytes)
  /-- Directories besides those that hold files. -/
  directories : List Location
  /-- Where the daemon is looked for unless the configuration says otherwise. -/
  socket : String
  /-- There is a daemon behind the socket. -/
  served : Bool
  /-- The daemon's socket was found. -/
  connected : Bool
  daemon : Routes.Stage

namespace Session

/-- A place is a directory. -/
def isDirectory (s : Session) (p : Location) : Bool :=
  s.directories.contains p || s.files.any fun f => p.isAbove f.1

/-- What stands under a path. -/
def read (s : Session) (path : String) : Except FileFault Bytes :=
  let p := Location.ofPath path
  match s.files.lookup p with
  | some bytes => if path.endsWith "/" then .error .notDirectory else .ok bytes
  | none =>
    if s.isDirectory p then .error .isDirectory
    else if s.files.any fun f => f.1.isAbove p then .error .notDirectory
    else .error .missing

/-- The session after a text was written under a path. -/
def write (s : Session) (path text : String) : Except FileFault Unit × Session :=
  let p := Location.ofPath path
  let held := s.files.filter (·.1 != p)
  if s.isDirectory p.parent then
    if s.isDirectory p || path.endsWith "/" then (.error .isDirectory, s)
    else (.ok (), { s with files := held ++ [(p, Utf8.encode text)] })
  else
    match s.read path with
    | .error fault => (.error fault, s)
    | .ok _ => (.ok (), s)

/-- Something stands under a path. -/
def isThere (s : Session) (path : String) : Bool :=
  (s.served && path == s.socket) || Plan.isThere (s.read path)

/-- Looks for the daemon. -/
def connect (s : Session) (host : Option String) : Except DaemonError Unit × Session :=
  let address := host.getD (String.ofList Daemon.socketMark ++ s.socket)
  let connected := s.served && Daemon.socketPath? address == some s.socket
  (Daemon.connect s.isThere address, { s with connected })

/-- Asks the daemon whether it is there. -/
def ping (s : Session) : Except DaemonError Unit × Session :=
  if s.connected then
    let (answer, daemon) := Routes.ping s.daemon
    (answer, { s with daemon })
  else (.error .unreachable, s)

/-- The report of a plan, and the session after it; none if a run has no end. -/
def perform : Plan → Session → Option (Report × Session)
  | .finish report, s => some (report, s)
  | .read path next, s => perform (next (s.read path)) s
  | .write path text next, s =>
    let (answer, s) := s.write path text
    perform (next answer) s
  | .connect host next, s =>
    let (answer, s) := s.connect host
    perform (next answer) s
  | .ping next, s =>
    let (answer, s) := s.ping
    perform (next answer) s
  | .run config request next, s => do
    let supervisor ← Supervisor.start? config 0
    let (result, daemon) ← Routes.run supervisor request s.daemon
    perform (next result) { s with daemon }
  | .bench config request count concurrency next, s =>
    match Supervisor.start? config 0 with
    | none => perform (next none) s
    | some supervisor => do
      let (trials, daemon) ← Trials.bench supervisor request count concurrency s.daemon
      perform (next (some trials)) { s with daemon }

end Session

end Isolate
