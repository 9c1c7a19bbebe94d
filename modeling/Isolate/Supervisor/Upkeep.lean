import Isolate.Config.Basic
import Isolate.Engine.Provision
import Isolate.Pool

/-!
# Upkeep of a pool

One upkeep task for each language keeps the pool of that language filled. It looks at the pool at
regular intervals, provides one container at a time while the pool is not full, waits longer after a
failure and, once the sign to stop is given, empties the pool and ends.

* `Upkeep.wait`: how a wait begins that the sign to stop may end;
* `Upkeep.step`: what a signal does to the task and to its pool. The task looks at the sign, at the
  pool and at the clock in steps of their own, for others may act in between.
-/

namespace Isolate

namespace Upkeep

/-- How far an upkeep task has come. -/
inductive Point where
  /-- Waiting for the next look at the pool. -/
  | polling (wake : Instant)
  /-- About to see whether the pool is full. -/
  | checking
  | provisioning (provision : Provision)
  /-- Has a new container and is about to see whether to stop. -/
  | deciding (id : ContainerId)
  /-- About to store a new container in the pool. -/
  | storing (id : ContainerId)
  /-- Removing a new container that has no place; `last` if the task ends after that. -/
  | discarding (removal : Removal) (last : Bool)
  /-- Waiting after a failure. -/
  | backingOff (wake : Instant)
  /-- About to empty the pool. -/
  | leaving
  /-- Removing the containers of the pool one after the other. -/
  | emptying (removal : Removal) (rest : List ContainerId)
  | ended

/-- What the engine is asked on the way into a point. -/
def Point.call? : Point → Option Call
  | .provisioning provision => some provision.call
  | .discarding removal _ => some removal.call
  | .emptying removal _ => some removal.call
  | _ => none

/-- The moment that is waited for. -/
def Point.wake? : Point → Option Instant
  | .polling wake => some wake
  | .provisioning provision => provision.wake?
  | .discarding removal _ => some removal.giveUpAt
  | .backingOff wake => some wake
  | .emptying removal _ => some removal.giveUpAt
  | _ => none

end Upkeep

/-- The upkeep task of a language. -/
structure Upkeep where
  language : String
  /-- The containers that it provides. -/
  spec : ContainerSpec
  point : Upkeep.Point

namespace Upkeep

/-- The task has ended. -/
def hasEnded (u : Upkeep) : Bool :=
  match u.point with
  | .ended => true
  | _ => false

/-- Begins to wait for a moment and for the sign to stop, whichever comes first. Both are looked for
at once, before any time goes by: a wait is over as it begins if the sign is there and the moment is
not. If both are there, either may be seen first. -/
def wait (now : Instant) (stopping : Bool) (wake : Instant) (waiting : Point) : Point :=
  if stopping = true ∧ now < wake then .leaving else waiting

/-- Waits for the next look at the pool. -/
def poll (settings : PoolSettings) (now : Instant) (stopping : Bool) : Point :=
  let wake := now.after (.ofMillis settings.pollInterval)
  wait now stopping wake (.polling wake)

/-- Waits after a failure. -/
def backOff (settings : PoolSettings) (now : Instant) (stopping : Bool) : Point :=
  let wake := now.after (.ofMillis settings.retryBackoff)
  wait now stopping wake (.backingOff wake)

/-- Removes containers one after the other and ends. -/
def empty (now : Instant) : List ContainerId → Point
  | [] => .ended
  | id :: rest => .emptying (.begin now id) rest

/-- What a signal does to the point of a task and to its pool. -/
def Point.step (settings : PoolSettings) (spec : ContainerSpec) (now : Instant) (stopping : Bool)
    (pool : WarmPool) : Point → Signal → Option (Point × WarmPool)
  | .polling wake, .timer => if wake ≤ now then some (.checking, pool) else none
  | .polling _, .notice => if stopping then some (.leaving, pool) else none
  | .checking, .proceed =>
    if pool.isFull then some (poll settings now stopping, pool)
    else some (.provisioning (.creating spec), pool)
  | .provisioning provision, s =>
    match provision.step now s with
    | some (.going provision) => some (.provisioning provision, pool)
    | some (.finished (.ok id)) => some (.deciding id, pool)
    | some (.finished (.error _)) => some (backOff settings now stopping, pool)
    | none => none
  | .deciding id, .proceed =>
    if stopping then some (.discarding (.begin now id) true, pool) else some (.storing id, pool)
  | .storing id, .proceed =>
    match pool.push id with
    | some pool => some (poll settings now stopping, pool)
    | none => some (.discarding (.begin now id) false, pool)
  | .discarding removal last, s =>
    match removal.step now s with
    | some (.going removal) => some (.discarding removal last, pool)
    | some (.finished _) => some (if last then .leaving else poll settings now stopping, pool)
    | none => none
  | .backingOff wake, .timer => if wake ≤ now then some (poll settings now stopping, pool) else none
  | .backingOff _, .notice => if stopping then some (.leaving, pool) else none
  | .leaving, .proceed => some (empty now pool.drain.1, pool.drain.2)
  | .emptying removal rest, s =>
    match removal.step now s with
    | some (.going removal) => some (.emptying removal rest, pool)
    | some (.finished _) => some (empty now rest, pool)
    | none => none
  | _, _ => none

/-- What a signal does to a task and to its pool. -/
def step (settings : PoolSettings) (now : Instant) (stopping : Bool) (u : Upkeep)
    (pool : WarmPool) (s : Signal) : Option (Upkeep × WarmPool) :=
  (u.point.step settings u.spec now stopping pool s).map fun (point, pool) =>
    ({ u with point }, pool)

/-- The task of a language, which first waits. -/
def begin (settings : PoolSettings) (now : Instant) (language : String) (spec : ContainerSpec) :
    Upkeep :=
  ⟨language, spec, poll settings now false⟩

end Upkeep

end Isolate
