import Isolate.Rehearsal.Play

/-!
# A scripted engine

A rehearsal takes the answers of the engine from a script and keeps a diary of the calls:

* `Script.Action`: how one call is answered;
* `Script.Stage`: what is left of the script, the containers that exist, and the diary;
* `Script.responder`: the engine that answers by the script.
-/

namespace Isolate.Script

/-- An exit code as it stands in a script, and what the engine answers for it. -/
structure Code where
  shown : Data
  answer : Except EngineError (Option Int)

/-- The code of a command that did well. -/
def Code.zero : Code := ⟨.int 0, .ok (some 0)⟩

/-- What stands in a script for a command of which nothing is known. -/
def Code.unknown : Code := ⟨.null, .ok none⟩

/-- What the output of a command does next. -/
inductive FrameContent where
  | chunk (chunk : Chunk)
  | failure (error : EngineError)
  /-- Nothing comes any more, and the output does not end either. -/
  | hang

/-- A piece of output, and the milliseconds before it. -/
structure Frame where
  delay : Nat
  content : FrameContent

/-- How one call is answered. -/
structure Action where
  /-- Milliseconds. -/
  delay : Nat
  failure : Option EngineError
  frames : List Frame
  codes : List Code

/-- A call that does well at once. -/
def Action.plain : Action := ⟨0, none, [], [.zero]⟩

/-- Something worth a note. -/
inductive Happening where
  | called (call : Call)
  | failed (call : Call)
  | created (id : ContainerId)
  | removed (id : ContainerId)
  | inspected (exec : ExecId) (code : Data)

/-- A line of the diary. -/
structure Note where
  moment : Instant
  /-- What the note is about, by which notes of one moment are ordered. -/
  subject : String
  happening : Happening

/-- What is left of a script and what came of it. -/
structure Stage where
  /-- The actions for each kind of call, each with the number of calls that it is meant for. -/
  plan : List (String × List (Action × Nat))
  /-- How many containers of each image were created. -/
  counts : List (String × Nat)
  /-- The exit codes of each command. -/
  codes : List (String × List Code)
  /-- The containers created here and not removed. -/
  live : List ContainerId
  /-- The diary, the last note first. -/
  diary : List Note

/-- The beginning of a script. -/
def Stage.begin (plan : List (String × List (Action × Nat))) : Stage := ⟨plan, [], [], [], []⟩

/-- An entry of an association list, replaced or added. -/
def assign {α : Type} (key : String) (value : α) : List (String × α) → List (String × α)
  | [] => [(key, value)]
  | e :: es => if e.1 = key then (key, value) :: es else e :: assign key value es

/-- The next action of a list. -/
def popAction : List (Action × Nat) → Option (Action × List (Action × Nat))
  | [] => none
  | (_, 0) :: rest => popAction rest
  | (action, n + 1) :: rest => some (action, (action, n) :: rest)

/-- The next action under a name. -/
def Stage.pop (s : Stage) (name : String) : Option (Action × Stage) := do
  let actions ← s.plan.lookup name
  let (action, rest) ← popAction actions
  some (action, { s with plan := assign name rest s.plan })

/-- The next action for a call of a kind on an image. -/
def Stage.nextAction (s : Stage) (kind image : String) : Action × Stage :=
  ((s.pop (kind ++ ":" ++ image)).or (s.pop kind)).getD (.plain, s)

/-- The image that the name of a container starts with. -/
def imageOf (id : ContainerId) : String := String.ofList (id.text.toList.takeWhile (· != '#'))

/-- The command that runs in a container. -/
def execOf (id : ContainerId) : ExecId := ⟨"x-" ++ id.text⟩

/-- The container in which a command runs. -/
def ownerOf (exec : ExecId) : ContainerId := ⟨String.ofList (exec.text.toList.drop 2)⟩

/-- The kind of a call in a script, its image and its subject. -/
def parts : Call → String × String × String
  | .create spec => ("create", spec.image, spec.image)
  | .start id => ("start", imageOf id, id.text)
  | .upload id _ _ => ("upload", imageOf id, id.text)
  | .exec id _ => ("exec", imageOf id, id.text)
  | .exitCode exec => ("inspect", "", (ownerOf exec).text)
  | .remove id => ("remove", imageOf id, id.text)

/-- A note is made. -/
def Stage.note (s : Stage) (moment : Instant) (subject : String) (h : Happening) : Stage :=
  { s with diary := ⟨moment, subject, h⟩ :: s.diary }

/-- The next exit code of a command; the last one stays. -/
def Stage.nextCode (s : Stage) (exec : ExecId) : Code × Stage :=
  match s.codes.lookup exec.text with
  | some (code :: next :: rest) =>
    (code, { s with codes := assign exec.text (next :: rest) s.codes })
  | some [code] => (code, s)
  | _ => (.unknown, s)

/-- A call comes in. -/
def begin (now : Instant) (call : Call) (s : Stage) : Nat × (Action × Code) × Stage :=
  let (kind, image, subject) := parts call
  match call with
  | .exitCode exec =>
    let (code, s) := s.nextCode exec
    (0, (.plain, code), s.note now subject (.inspected exec code.shown))
  | _ =>
    let (action, s) := s.nextAction kind image
    (action.delay, (action, .unknown), s.note now subject (.called call))

/-- The output of a command, up to the point where it fails, hangs or ends. -/
def output : List Frame → List (Nat × Reply)
  | [] => [(0, .ended)]
  | ⟨delay, .chunk chunk⟩ :: frames => (delay, .output (.ok chunk)) :: output frames
  | ⟨delay, .failure e⟩ :: _ => [(delay, .output (.error e))]
  | ⟨_, .hang⟩ :: _ => []

/-- The answer to a call that fails. -/
def failed (e : EngineError) : Call → Reply
  | .create _ => .created (.error e)
  | .exec _ _ => .opened (.error e)
  | .exitCode _ => .code (.error e)
  | _ => .done (.error e)

/-- A call is answered. -/
def finish (now : Instant) (call : Call) (ticket : Action × Code) (s : Stage) :
    Reply × List (Nat × Reply) × Stage :=
  let (_, _, subject) := parts call
  match ticket.1.failure with
  | some e => (failed e call, [], s.note now subject (.failed call))
  | none =>
    match call with
    | .create spec =>
      let n := (s.counts.lookup spec.image).getD 0 + 1
      let id : ContainerId := ⟨spec.image ++ "#" ++ toString n⟩
      let s := { s with counts := assign spec.image n s.counts, live := s.live ++ [id] }
      (.created (.ok id), [], s.note now id.text (.created id))
    | .exec id _ =>
      let s := { s with codes := assign (execOf id).text ticket.1.codes s.codes }
      (.opened (.ok (execOf id)), output ticket.1.frames, s)
    | .exitCode _ => (.code ticket.2.answer, [], s)
    | .remove id =>
      let s := { s with live := s.live.filter (· != id) }
      (.done (.ok ()), [], s.note now subject (.removed id))
    | _ => (.done (.ok ()), [], s)

/-- The engine that answers by a script. -/
def responder : Responder Stage (Action × Code) := ⟨begin, finish⟩

end Isolate.Script
