import Isolate.Daemon.Target
import Isolate.Engine.Basic
import Isolate.Data

/-!
# Requests to the daemon

The engine asks its daemon over HTTP:

* `Daemon.HttpRequest`: method, path, query and body;
* `Daemon.requestOf`: the request for a call;
* `Daemon.startRequest`: the second request for a command, which starts it;
* `Daemon.connect`: where the daemon can be found.
-/

namespace Isolate.Daemon

/-- What a request carries. -/
inductive Body where
  | none
  | json (document : Data)
  | archive (bytes : Bytes)

/-- A request. -/
structure HttpRequest where
  method : String
  path : String
  query : String
  body : Body

/-- The greatest number of bytes that the daemon can be told. -/
def maxMemory : Nat := bound63 - 1

/-- The memory that the daemon is told to allow. -/
def hostMemory (spec : ContainerSpec) : Nat := min spec.memory.toNat maxMemory

/-- What the daemon is told about a container. -/
def hostConfig (spec : ContainerSpec) : Data :=
  .table [
    ("Memory", .int (hostMemory spec)),
    ("NanoCpus", .int spec.nanoCpus),
    ("PidsLimit", .int spec.maxProcesses),
    ("NetworkMode", .text (if spec.network then "bridge" else "none")),
    ("CapDrop", .texts spec.droppedCapabilities),
    ("Tmpfs", .table (spec.scratch.map fun (place, options) => (place, .text options)))]

/-- The container that the daemon is asked for. -/
def createBody (spec : ContainerSpec) : Data :=
  .table [
    ("Image", .text spec.image),
    ("Cmd", .texts spec.command),
    ("Tty", .bool false),
    ("WorkingDir", .text spec.workingDir),
    ("HostConfig", hostConfig spec)]

/-- The path of a container. -/
def containerPath (id : ContainerId) : String := "/containers/" ++ id.text

/-- The path of a command. -/
def execPath (exec : ExecId) : String := "/exec/" ++ exec.text

/-- A request for a path. A query that is given replaces one in the path. -/
def HttpRequest.to (method path : String) (query : Option String) (body : Body) : HttpRequest :=
  let target := Target.ofReference path
  ⟨method, target.path, query.getD target.query, body⟩

/-- Asks whether the daemon is there. -/
def pingRequest : HttpRequest := .to "GET" "/_ping" none .none

/-- The first request for a call. -/
def requestOf : Call → HttpRequest
  | .create spec => .to "POST" "/containers/create" none (.json (createBody spec))
  | .start id => .to "POST" (containerPath id ++ "/start") none .none
  | .upload id dir archive =>
    .to "PUT" (containerPath id ++ "/archive") (some ("path=" ++ formEncoded dir)) (.archive archive)
  | .exec id argv =>
    .to "POST" (containerPath id ++ "/exec") none (.json (.table [
      ("AttachStderr", .bool true), ("AttachStdout", .bool true), ("Cmd", .texts argv)]))
  | .exitCode exec => .to "GET" (execPath exec ++ "/json") none .none
  | .remove id => .to "DELETE" (containerPath id) (some "v=false&force=true&link=false") .none

/-- Starts a command with its output attached. -/
def startRequest (exec : ExecId) : HttpRequest :=
  .to "POST" (execPath exec ++ "/start") none (.json (.table [
    ("Detach", .bool false), ("OutputCapacity", .null), ("Tty", .bool false)]))

/-- The mark of an address that names a socket. -/
def socketMark : List Char := "unix://".toList

/-- A text without the first mark in it. -/
def withoutMark : List Char → List Char
  | [] => []
  | c :: cs =>
    if socketMark.isPrefixOf (c :: cs) then (c :: cs).drop socketMark.length
    else c :: withoutMark cs

/-- The path of the socket that an address names. A mark in the path itself is dropped as well. -/
def socketPath? (address : String) : Option String :=
  let cs := address.toList
  if socketMark.isPrefixOf cs then some (String.ofList (withoutMark (cs.drop socketMark.length)))
  else none

/-- Finds the daemon at an address. Only the place of a socket is looked at; the daemon itself is not
asked. -/
def connect (exists? : String → Bool) (address : String) : Except DaemonError Unit :=
  match socketPath? address with
  | some path => if exists? path then .ok () else .error .noSocket
  | none => .ok ()

end Isolate.Daemon
