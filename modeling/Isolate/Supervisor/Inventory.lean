import Isolate.Supervisor.Step

/-!
# Where the containers are

Every container that the engine created is in one of a few places. Here they are listed, each place
by itself, together with what a sequence of events brought into the world.

* `Supervisor.after?`: the supervisor after a sequence of events, if all of them can happen;
* `Event.created?`, `created`: the containers that events bring into the world;
* `Supervisor.starting`, `idle`, `leased`, `waiting`, `removed`: the containers in each place;
* `Supervisor.inventory`: the containers in all places.
-/

namespace Isolate

/-- The containers that a run is providing for itself. -/
def Run.Stage.starting : Run.Stage → List ContainerId
  | .provisioning _ provision => provision.held
  | _ => []

/-- The containers that a run has to itself and has not yet asked the engine to remove. -/
def Run.Stage.using : Run.Stage → List ContainerId
  | .uploading _ id _ => [id]
  | .executing x => [x.container]
  | _ => []

/-- The containers that an upkeep task is providing, up to the moment at which it stores them. -/
def Upkeep.Point.starting : Upkeep.Point → List ContainerId
  | .provisioning provision => provision.held
  | .deciding id => [id]
  | .storing id => [id]
  | _ => []

/-- The containers that an upkeep task will ask the engine to remove one after the other. -/
def Upkeep.Point.waiting : Upkeep.Point → List ContainerId
  | .emptying _ rest => rest
  | _ => []

/-- The containers that a closing will ask the engine to remove one after the other. -/
def Closing.waiting : Closing → List ContainerId
  | .removing _ rest _ => rest
  | _ => []

namespace Task

/-- The containers that a task is providing. -/
def starting : Task → List ContainerId
  | .run r => r.stage.starting
  | .upkeep u => u.point.starting
  | .provision p => p.held
  | _ => []

/-- The containers that a task runs a submission in. -/
def leased : Task → List ContainerId
  | .run r => r.stage.using
  | _ => []

/-- The containers that a task will ask the engine to remove. -/
def waiting : Task → List ContainerId
  | .upkeep u => u.point.waiting
  | .closing c => c.waiting
  | _ => []

end Task

/-- The container that a call removes. -/
def Call.removed? : Call → Option ContainerId
  | .remove id => some id
  | _ => none

namespace Supervisor

/-- The containers that are being provided. -/
def starting (s : Supervisor) : List ContainerId := s.tasks.flatMap Task.starting

/-- The containers that wait in a pool. -/
def idle (s : Supervisor) : List ContainerId := s.pools.flatMap (·.idle)

/-- The containers that submissions run in. -/
def leased (s : Supervisor) : List ContainerId := s.tasks.flatMap Task.leased

/-- The containers that wait for their removal. -/
def waiting (s : Supervisor) : List ContainerId := s.tasks.flatMap Task.waiting

/-- The containers that the engine was asked to remove, as often as it was asked. -/
def removed (s : Supervisor) : List ContainerId := s.calls.filterMap fun c => c.2.removed?

/-- The containers in all places. -/
def inventory (s : Supervisor) : List ContainerId :=
  s.starting ++ s.idle ++ s.leased ++ s.waiting ++ s.removed

/-- The supervisor after a sequence of events, if all of them can happen. -/
def after? (s : Supervisor) (events : List Event) : Option Supervisor := events.foldlM step s

@[simp] theorem after?_nil (s : Supervisor) : s.after? [] = some s := rfl

theorem after?_cons (s : Supervisor) (e : Event) (es : List Event) :
    s.after? (e :: es) = (s.step e).bind (·.after? es) := rfl

end Supervisor

/-- The container that an event brings into the world. -/
def Event.created? : Event → Option ContainerId
  | .signal _ (.reply (.created (.ok id))) => some id
  | _ => none

/-- The containers that events bring into the world. -/
def created (events : List Event) : List ContainerId := events.filterMap Event.created?

end Isolate
