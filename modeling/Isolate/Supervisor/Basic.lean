import Isolate.Run.Basic
import Isolate.Supervisor.Upkeep

/-!
# The supervisor

A supervisor is made of its warm pools and of the tasks under way: runs, upkeep tasks, closings,
and removals and provisions that nobody else looks after.

* `Closing`: a request to stop the pools;
* `Task`, `Supervisor`: the state;
* `Supervisor.start?`: the supervisor of a configuration, if its pools can be set up;
* `Supervisor.calls`: everything that the engine was asked so far.
-/

namespace Isolate

/-- How far a request to stop the pools has come. -/
inductive Closing where
  /-- About to give the sign to stop. -/
  | signalling
  /-- About to take over the upkeep tasks that nobody waits for yet. -/
  | gathering
  /-- Waiting until these tasks have ended. -/
  | joining (tasks : List Nat)
  /-- About to take what is left in the pools of these languages. -/
  | sweeping (languages : List String)
  /-- Removing what was left in a pool one after the other. -/
  | removing (removal : Removal) (rest : List ContainerId) (languages : List String)
  | ended

namespace Closing

/-- What the engine is asked on the way into a state. -/
def call? : Closing → Option Call
  | .removing removal _ _ => some removal.call
  | _ => none

/-- The moment that is waited for. -/
def wake? : Closing → Option Instant
  | .removing removal _ _ => some removal.giveUpAt
  | _ => none

/-- Removes the containers of one pool and goes on to the next. -/
def sweep (now : Instant) (languages : List String) : List ContainerId → Closing
  | [] => match languages with
    | [] => .ended
    | _ => .sweeping languages
  | id :: rest => .removing (.begin now id) rest languages

end Closing

/-- Something under way. -/
inductive Task where
  | run (run : Run)
  | upkeep (upkeep : Upkeep)
  | closing (closing : Closing)
  /-- A removal that nobody waits for. -/
  | removal (removal : Removal)
  | provision (provision : Provision)
  /-- A provision that has come to its end. -/
  | provided (result : Except EngineError ContainerId)
  /-- A removal that is over, or a task that was dropped. -/
  | over

namespace Task

/-- What the engine is asked on the way into a state. -/
def call? : Task → Option Call
  | .run r => r.stage.call?
  | .upkeep u => u.point.call?
  | .closing c => c.call?
  | .removal r => some r.call
  | .provision p => some p.call
  | .provided _ => none
  | .over => none

/-- The moment that is waited for. -/
def wake? : Task → Option Instant
  | .run r => r.stage.wake?
  | .upkeep u => u.point.wake?
  | .closing c => c.wake?
  | .removal r => some r.giveUpAt
  | .provision p => p.wake?
  | .provided _ => none
  | .over => none

end Task

/-- The pools of a configuration and the tasks under way. A task is named by its place in the
list. -/
structure Supervisor where
  config : Config
  /-- The time of day at which the clock was started, in seconds. -/
  epoch : Nat
  now : Instant
  /-- The sign to stop has been given. -/
  stopping : Bool
  pools : List WarmPool
  /-- The upkeep tasks that no closing has taken over. -/
  unjoined : List Nat
  tasks : List Task
  /-- What the engine was asked so far and by which task, the last call first. -/
  calls : List (Nat × Call)

/-- The languages of a configuration, each once. -/
def Config.ids (c : Config) : List String := (c.languages.map (·.1)).eraseDups

namespace Supervisor

/-- The seconds of the time of day, for stamping archives. -/
def stamp (s : Supervisor) : Nat := s.epoch + s.now / 1000

/-- The pool of a language. -/
def pool? (s : Supervisor) (language : String) : Option WarmPool :=
  s.pools.find? (·.language == language)

/-- The pool of a language, changed. -/
def setPool (s : Supervisor) (pool : WarmPool) : Supervisor :=
  { s with pools := s.pools.map fun p => if p.language = pool.language then pool else p }

/-- Records what the engine is asked on the way into a state of a task. -/
def record (s : Supervisor) (k : Nat) (t : Task) : Supervisor :=
  match t.call? with
  | some call => { s with calls := (k, call) :: s.calls }
  | none => s

/-- A task in its next state. -/
def goOn (s : Supervisor) (k : Nat) (t : Task) : Supervisor :=
  { s with tasks := s.tasks.set k t }.record k t

/-- A new task. -/
def spawn (s : Supervisor) (t : Task) : Supervisor :=
  { s with tasks := s.tasks ++ [t] }.record s.tasks.length t

/-- The upkeep tasks of a configuration, if it wants pools at all. -/
def keepers (c : Config) : List Upkeep :=
  if c.pool.size = 0 then []
  else c.ids.filterMap fun id =>
    (c.profile? id).map fun p => Upkeep.begin c.pool 0 id (p.containerSpec none)

/-- The supervisor of a configuration at the start of its clock, if there is room for its pools. -/
def start? (c : Config) (epoch : Nat) : Option Supervisor :=
  let upkeeps := keepers c
  if upkeeps.isEmpty || decide (WarmPool.Reservable c.pool.size.toNat) then
    some {
      config := c
      epoch := epoch
      now := 0
      stopping := false
      pools := upkeeps.map fun u => .empty u.language c.pool.size.toNat
      unjoined := List.range upkeeps.length
      tasks := upkeeps.map .upkeep
      calls := [] }
  else none

end Supervisor

end Isolate
