import Isolate.Rehearsal.Script

/-!
# Rehearsals

A rehearsal goes through the steps of a scene with a scripted engine, one after the other:

* `Scene.Step`: what a caller does;
* `Scene.perform`: what a step does to a rehearsal, and what the caller gets for it.
-/

namespace Isolate.Scene

/-- What a caller does. -/
inductive Step where
  /-- Begins a run and waits for its end. -/
  | run (request : Request) (cancelAfter : Option Nat)
  /-- Begins a run and goes on. -/
  | start (key : String) (request : Request) (cancelAfter : Option Nat)
  /-- Waits for the end of what was begun. -/
  | join (key : String)
  | cancel (key : String)
  | abort (key : String)
  | sleep (ms : Nat)
  | shutdown
  | startShutdown (key : String)
  | dropRunner
  | acquire (language : String)
  | isRunning
  | config
  | pool (language : String)
  | poolPush (language : String) (id : ContainerId)
  | poolDrain (language : String)
  | provision (language : String) (memory : Option UInt64)
  | terminate (id : ContainerId)
  | lease (key : String) (id : ContainerId)
  | leaseRelease (key : String)
  /-- Drops a lease; without somebody to carry out the removal nothing is removed. -/
  | leaseDrop (key : String) (attended : Bool)

/-- What a caller gets for a step. -/
inductive Answer where
  | nothing
  | result (result : Execution.Result)
  | container (id : Option ContainerId)
  | provided (result : Except EngineError ContainerId)
  | unknownLanguage (language : String)
  | truth (value : Bool)
  | config (config : Config)
  | pool (pool : Option WarmPool)
  | pushed (rejected : Option ContainerId)
  | drained (ids : Option (List ContainerId))

/-- A rehearsal under way. -/
structure State where
  play : Play Script.Stage (Script.Action × Script.Code)
  /-- The tasks begun under a key. -/
  tasks : List (String × Nat)
  leases : List (String × ContainerId)

/-- The beginning of a rehearsal. -/
def begin (supervisor : Supervisor) (plan : List (String × List (Script.Action × Nat))) : State :=
  ⟨(Play.begin supervisor (.begin plan)).settle Script.responder Play.settleFuel, [], []⟩

/-- The task that the next event will begin. -/
def State.nextTask (s : State) : Nat := s.play.supervisor.tasks.length

/-- What an event does to a rehearsal, with everything that follows at this moment. -/
def State.happen (s : State) (e : Event) : State :=
  { s with play := (s.play.attempt Script.responder e).settle Script.responder Play.settleFuel }

/-- A task has come to its end. -/
def isOver (k : Nat) (p : Play Script.Stage (Script.Action × Script.Code)) : Bool :=
  match p.supervisor.tasks[k]? with
  | some (.run ⟨_, .done _⟩) => true
  | some (.closing .ended) => true
  | some (.provided _) => true
  | some .over => true
  | some _ => false
  | none => true

/-- Waits until a task has come to its end. -/
def State.await (s : State) (k : Nat) : Option State :=
  (s.play.waitUntil Script.responder (isOver k)).map fun play => { s with play }

/-- What came of a task. -/
def State.answer (s : State) (k : Nat) : Answer :=
  match s.play.supervisor.tasks[k]? with
  | some (.run ⟨_, .done result⟩) => .result result
  | some (.provided result) => .provided result
  | _ => .nothing

/-- Begins a run, to be cancelled after some milliseconds. -/
def State.startRun (s : State) (request : Request) (cancelAfter : Option Nat) : State :=
  let k := s.nextTask
  let alarms := match cancelAfter with
    | some (ms + 1) => [(s.play.supervisor.now + (ms + 1), k)]
    | _ => []
  { s with play := { s.play with alarms := s.play.alarms ++ alarms } }.happen
    (.run request (cancelAfter == some 0))

/-- What a step does to a rehearsal, or none if it has no end. -/
def perform (s : State) : Step → Option (State × Answer)
  | .run request cancelAfter => do
    let k := s.nextTask
    let s ← (s.startRun request cancelAfter).await k
    some (s, s.answer k)
  | .start key request cancelAfter =>
    some ({ s.startRun request cancelAfter with
      tasks := Script.assign key s.nextTask s.tasks }, .nothing)
  | .join key =>
    match s.tasks.lookup key with
    | some k => do
      let s ← s.await k
      some (s, s.answer k)
    | none => some (s, .nothing)
  | .cancel key => some (((s.tasks.lookup key).elim s fun k => s.happen (.cancel k)), .nothing)
  | .abort key => some (((s.tasks.lookup key).elim s fun k => s.happen (.drop k)), .nothing)
  | .sleep ms => some ({ s with play := s.play.wait Script.responder ms }, .nothing)
  | .shutdown => do
    let k := s.nextTask
    let s ← (s.happen .close).await k
    some (s, .nothing)
  | .startShutdown key =>
    some ({ s.happen .close with tasks := Script.assign key s.nextTask s.tasks }, .nothing)
  | .dropRunner => 
    let play := { s.play with released := true }
    some ({ s with play := play.settle Script.responder Play.settleFuel }, .nothing)
  | .acquire language =>
    let id := (s.play.supervisor.pool? language).bind (·.take.1)
    some (s.happen (.take language), .container id)
  | .isRunning => some (s, .truth !s.play.supervisor.stopping)
  | .config => some (s, .config s.play.supervisor.config)
  | .pool language => some (s, .pool (s.play.supervisor.pool? language))
  | .poolPush language id =>
    match s.play.supervisor.pool? language with
    | some pool =>
      if (pool.push id).isSome then some (s.happen (.push language id), .pushed none)
      else some (s, .pushed (some id))
    | none => some (s, .nothing)
  | .poolDrain language =>
    some (s.happen (.drain language), .drained ((s.play.supervisor.pool? language).map (·.drain.1)))
  | .provision language memory =>
    match s.play.supervisor.config.profile? language with
    | some p => do
      let k := s.nextTask
      let s ← (s.happen (.provision (p.containerSpec memory))).await k
      some (s, s.answer k)
    | none => some (s, .unknownLanguage language)
  | .terminate id => do
    let k := s.nextTask
    let s ← (s.happen (.remove id)).await k
    some (s, .nothing)
  | .lease key id => some ({ s with leases := Script.assign key id s.leases }, .container (some id))
  | .leaseRelease key =>
    match s.leases.lookup key with
    | some id => do
      let k := s.nextTask
      let s ← (s.happen (.remove id)).await k
      some ({ s with leases := s.leases.filter (·.1 != key) }, .nothing)
    | none => some (s, .nothing)
  | .leaseDrop key attended =>
    match s.leases.lookup key with
    | some id =>
      let s := if attended then s.happen (.remove id) else s
      some ({ s with leases := s.leases.filter (·.1 != key) }, .nothing)
    | none => some (s, .nothing)

/-- What a caller sees after a step. -/
structure View where
  moment : Instant
  answer : Answer
  /-- How many containers wait in the pool of each language. -/
  pools : List (String × Nat)
  live : List ContainerId
  /-- The notes made since the step before. -/
  notes : List Script.Note

/-- What is seen of a rehearsal, and the rehearsal with an empty diary. -/
def State.view (s : State) (answer : Answer) : View × State :=
  let stage := s.play.engine
  let pools := if s.play.released then []
    else s.play.supervisor.pools.map fun p => (p.language, p.size)
  (⟨s.play.supervisor.now, answer, pools, stage.live, stage.diary.reverse⟩,
    { s with play := { s.play with engine := { stage with diary := [] } } })

/-- All steps one after the other, or none if one of them has no end. -/
def run (s : State) : List Step → Option (List View)
  | [] => some []
  | step :: steps => do
    let (s, answer) ← perform s step
    let (view, s) := s.view answer
    let views ← run s steps
    some (view :: views)

end Isolate.Scene
