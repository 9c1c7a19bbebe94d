import Isolate.Daemon.Request
import Isolate.Daemon.Response
import Isolate.Rehearsal.Play

/-!
# A scripted daemon

Instead of a scripted engine, a rehearsal may have the engine talk to a daemon whose answers stand in
a script:

* `Routes.Stage`: what is left of the script, and the requests that came in;
* `Routes.carryOut`: a call of the engine, as requests and their answers;
* `Routes.responder`: the engine over such a daemon.
-/

namespace Isolate.Routes

open Daemon

/-- The kinds of requests. -/
inductive Route where
  | ping
  | create
  | start
  | upload
  | exec
  | execStart
  | inspect
  | remove
  deriving DecidableEq, Repr

/-- A text ends with another one. -/
def endsIn (s ending : String) : Bool := ending.toList.isSuffixOf s.toList

/-- The kind of a request, by its method and its path. One that is none of the others only asks
whether the daemon is there. -/
def routeOf (r : HttpRequest) : Route :=
  if r.method = "DELETE" then .remove
  else if r.method = "PUT" then .upload
  else if "/exec/".toList.isPrefixOf r.path.toList then
    if r.method = "POST" then .execStart else .inspect
  else if r.path = "/containers/create" then .create
  else if endsIn r.path "/start" then .start
  else if endsIn r.path "/exec" then .exec
  else .ping

/-- What is left of a script, and what came in. -/
structure Stage where
  answers : List (Route × List HttpResponse)
  /-- The requests, the last one first. -/
  requests : List HttpRequest

/-- The beginning of a script. -/
def Stage.begin (answers : List (Route × List HttpResponse)) : Stage := ⟨answers, []⟩

/-- What the daemon answers when the script is at its end. -/
def usual : Route → HttpResponse
  | .ping => .plain 200 "OK"
  | .create => .plain 201 "\x7b\"Id\":\"c0ffee\",\"Warnings\":[]\x7d"
  | .start => .plain 204 ""
  | .upload => .plain 200 ""
  | .exec => .plain 201 "\x7b\"Id\":\"e1\"\x7d"
  | .execStart => .attached [] false
  | .inspect => .plain 200 "\x7b\"ID\":\"e1\",\"Running\":false,\"ExitCode\":0\x7d"
  | .remove => .plain 204 ""

/-- The next answer for a kind of request. -/
def pop (route : Route) :
    List (Route × List HttpResponse) → HttpResponse × List (Route × List HttpResponse)
  | [] => (usual route, [])
  | (r, responses) :: rest =>
    if r = route then
      match responses with
      | response :: responses => (response, (r, responses) :: rest)
      | [] => (usual route, (r, []) :: rest)
    else
      let (response, rest) := pop route rest
      (response, (r, responses) :: rest)

/-- A request comes in and is answered. -/
def Stage.ask (s : Stage) (request : HttpRequest) : HttpResponse × Stage :=
  let (response, answers) := pop (routeOf request) s.answers
  (response, ⟨answers, request :: s.requests⟩)

/-- A failure of the daemon is one of the engine. -/
def failing {α : Type} : Except DaemonError α → Except EngineError α
  | .ok a => .ok a
  | .error e => .error (.daemon e)

/-- What is left to come of a command's output. -/
def remaining (chunks : List Chunk) (hangs : Bool) : List (Nat × Reply) :=
  chunks.map (fun chunk => (0, .output (.ok chunk))) ++ if hangs then [] else [(0, .ended)]

/-- A call of which only success matters. -/
def simple (s : Stage) (call : Call) : Reply × List (Nat × Reply) × Stage :=
  let (response, s) := s.ask (requestOf call)
  (.done (failing ((accept response).map fun _ => ())), [], s)

/-- A call of the engine. A command takes two requests: one to make it known and one to start it. -/
def carryOut (call : Call) (s : Stage) : Reply × List (Nat × Reply) × Stage :=
  match call with
  | .create _ =>
    let (response, s) := s.ask (requestOf call)
    (.created (failing (containerOf response)), [], s)
  | .start _ => simple s call
  | .upload _ _ _ => simple s call
  | .exec _ _ =>
    let (response, s) := s.ask (requestOf call)
    match execOf response with
    | .error e => (.opened (.error (.daemon e)), [], s)
    | .ok exec =>
      let (response, s) := s.ask (startRequest exec)
      match outputOf response with
      | .error e => (.opened (.error (.daemon e)), [], s)
      | .ok (chunks, hangs) => (.opened (.ok exec), remaining chunks hangs, s)
  | .exitCode _ =>
    let (response, s) := s.ask (requestOf call)
    (.code (failing (exitCodeOf response)), [], s)
  | .remove _ => simple s call

/-- Asks whether the daemon is there. -/
def ping (s : Stage) : Except DaemonError Unit × Stage :=
  let (response, s) := s.ask pingRequest
  ((accept response).map fun _ => (), s)

/-- The engine over a scripted daemon, which answers at once. -/
def responder : Responder Stage Unit :=
  ⟨fun _ _ s => (0, (), s), fun _ call _ s => carryOut call s⟩

/-- A run from its beginning to its end, if it has one. -/
def run (supervisor : Supervisor) (request : Request) (s : Stage) :
    Option (Execution.Result × Stage) := do
  let k := supervisor.tasks.length
  let p : Play Stage Unit := (Play.begin supervisor s).attempt responder (.run request false)
  let p ← p.waitUntil responder fun p => (p.result? k).isSome
  let result ← p.result? k
  some (result, p.engine)

end Isolate.Routes
