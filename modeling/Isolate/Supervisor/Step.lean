import Isolate.Supervisor.Basic

/-!
# Steps of the supervisor

* `Event`: what can happen next: a caller asks for something, a task is told something, or time
  goes on;
* `Supervisor.step`: the supervisor after an event, if the event can happen.

Which of several possible events happens is left open, and so are the engine's answers.
-/

namespace Isolate

/-- Something that can happen to a supervisor. -/
inductive Event where
  /-- A caller asks for a run and may have cancelled it already. -/
  | run (request : Request) (cancelled : Bool)
  /-- A caller asks to stop the pools. -/
  | close
  /-- A caller asks for a container. -/
  | provision (spec : ContainerSpec)
  /-- A caller asks to remove a container. -/
  | remove (id : ContainerId)
  /-- The pools are given up without anybody waiting for it. -/
  | abandon
  /-- A caller cancels a run. -/
  | cancel (task : Nat)
  /-- A caller drops a run or a closing, which goes no further. -/
  | drop (task : Nat)
  /-- A task is told something. -/
  | signal (task : Nat) (signal : Signal)
  /-- Time goes on. -/
  | advance (moment : Instant)
  /-- A caller stores a container in a pool. -/
  | push (language : String) (id : ContainerId)
  /-- A caller takes a container from a pool. -/
  | take (language : String)
  /-- A caller takes all containers from a pool. -/
  | drain (language : String)

namespace Supervisor

/-- Takes the container that waited longest in the pool of a language. -/
def takeIdle (s : Supervisor) (language : String) : Option ContainerId × Supervisor :=
  match s.pool? language with
  | some pool => (pool.take.1, s.setPool pool.take.2)
  | none => (none, s)

/-- Begins a run. An idle container is taken only if it fits the memory limit of the request. -/
def beginRun (s : Supervisor) (request : Request) (cancelled : Bool) : Supervisor :=
  match s.config.job? request with
  | none => s.spawn (.run ⟨cancelled, .done (.error (.unsupported request.language))⟩)
  | some job =>
    if job.takesIdle then
      let (idle, s) := s.takeIdle request.language
      s.spawn (.run ⟨cancelled, Run.begin s.now s.stamp job idle⟩)
    else s.spawn (.run ⟨cancelled, Run.begin s.now s.stamp job none⟩)

/-- The task has ended. -/
def hasEnded (s : Supervisor) (k : Nat) : Bool :=
  match s.tasks[k]? with
  | some (.upkeep u) => u.hasEnded
  | _ => true

/-- What a signal does to a closing. -/
def stepClosing (s : Supervisor) (k : Nat) : Closing → Signal → Option Supervisor
  | .signalling, .proceed =>
    some ({ s with stopping := true }.goOn k (.closing .gathering))
  | .gathering, .proceed =>
    some ({ s with unjoined := [] }.goOn k (.closing (.joining s.unjoined)))
  | .joining [], .proceed =>
    some (s.goOn k (.closing (.sweep s.now (s.pools.map (·.language)) [])))
  | .joining (task :: tasks), .proceed =>
    if s.hasEnded task then some (s.goOn k (.closing (.joining tasks))) else none
  | .sweeping [], .proceed => some (s.goOn k (.closing .ended))
  | .sweeping (language :: languages), .proceed =>
    match s.pool? language with
    | some pool =>
      some ((s.setPool pool.drain.2).goOn k (.closing (.sweep s.now languages pool.drain.1)))
    | none => some (s.goOn k (.closing (.sweep s.now languages [])))
  | .removing removal rest languages, signal =>
    match removal.step s.now signal with
    | some (.going removal) => some (s.goOn k (.closing (.removing removal rest languages)))
    | some (.finished _) => some (s.goOn k (.closing (.sweep s.now languages rest)))
    | none => none
  | _, _ => none

/-- What a signal does to a task. -/
def stepTask (s : Supervisor) (k : Nat) : Task → Signal → Option Supervisor
  | .run r, signal => (r.step s.now s.stamp signal).map fun r => s.goOn k (.run r)
  | .upkeep u, signal =>
    match s.pool? u.language with
    | some pool =>
      (u.step s.config.pool s.now s.stopping pool signal).map fun (u, pool) =>
        (s.setPool pool).goOn k (.upkeep u)
    | none => none
  | .closing c, signal => s.stepClosing k c signal
  | .removal r, signal =>
    match r.step s.now signal with
    | some (.going r) => some (s.goOn k (.removal r))
    | some (.finished _) => some (s.goOn k .over)
    | none => none
  | .provision p, signal =>
    match p.step s.now signal with
    | some (.going p) => some (s.goOn k (.provision p))
    | some (.finished result) => some (s.goOn k (.provided result))
    | none => none
  | .provided _, _ => none
  | .over, _ => none

/-- Drops a run; the container that it has to itself is removed by a task of its own. -/
def dropRun (s : Supervisor) (k : Nat) (r : Run) : Supervisor :=
  let s := s.goOn k .over
  match r.stage.leased? with
  | some id => s.spawn (.removal (.begin s.now id))
  | none => s

/-- The supervisor after an event, if the event can happen. -/
def step (s : Supervisor) : Event → Option Supervisor
  | .run request cancelled => some (s.beginRun request cancelled)
  | .close => some (s.spawn (.closing .signalling))
  | .provision spec => some (s.spawn (.provision (.creating spec)))
  | .remove id => some (s.spawn (.removal (.begin s.now id)))
  | .abandon => some { s with stopping := true }
  | .cancel k =>
    match s.tasks[k]? with
    | some (.run r) => some { s with tasks := s.tasks.set k (.run { r with cancelled := true }) }
    | _ => none
  | .drop k =>
    match s.tasks[k]? with
    | some (.run r) => some (s.dropRun k r)
    | some (.closing _) => some (s.goOn k .over)
    | _ => none
  | .signal k signal =>
    match s.tasks[k]? with
    | some t => s.stepTask k t signal
    | none => none
  | .advance moment =>
    if s.now ≤ moment ∧ s.tasks.all (fun t => t.wake?.all (moment ≤ ·)) then
      some { s with now := moment }
    else none
  | .push language id =>
    match s.pool? language with
    | some pool => (pool.push id).map s.setPool
    | none => none
  | .take language =>
    match s.pool? language with
    | some pool => some (s.setPool pool.take.2)
    | none => none
  | .drain language =>
    match s.pool? language with
    | some pool => some (s.setPool pool.drain.2)
    | none => none

end Supervisor

end Isolate
