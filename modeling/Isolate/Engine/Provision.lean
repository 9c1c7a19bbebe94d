import Isolate.Engine.Removal

/-!
# Providing a container

* `Provision`: a container being created and started; if it does not start it is removed again
  before the failure is reported.
-/

namespace Isolate

/-- How far the provision of a container has come. -/
inductive Provision where
  | creating (spec : ContainerSpec)
  | starting (id : ContainerId)
  /-- The container did not start and is being removed. -/
  | undoing (removal : Removal) (error : EngineError)

namespace Provision

/-- What the engine is asked on the way into a state. -/
def call : Provision → Call
  | .creating spec => .create spec
  | .starting id => .start id
  | .undoing removal _ => removal.call

/-- The moment that is waited for. -/
def wake? : Provision → Option Instant
  | .undoing removal _ => some removal.giveUpAt
  | _ => none

/-- The container that exists on behalf of a provision and is not yet being removed. -/
def held : Provision → List ContainerId
  | .starting id => [id]
  | _ => []

/-- A container is provided once it is created and started. -/
def step (now : Instant) :
    Provision → Signal → Option (Progress Provision (Except EngineError ContainerId))
  | .creating _, .reply (.created (.ok id)) => some (.going (.starting id))
  | .creating _, .reply (.created (.error e)) => some (.finished (.error e))
  | .starting id, .reply (.done (.ok _)) => some (.finished (.ok id))
  | .starting id, .reply (.done (.error e)) => some (.going (.undoing (.begin now id) e))
  | .undoing removal e, s =>
    match removal.step now s with
    | some (.finished _) => some (.finished (.error e))
    | some (.going removal) => some (.going (.undoing removal e))
    | none => none
  | _, _ => none

end Provision

end Isolate
