import Isolate.Engine.Provision
import Isolate.Run.Execution
import Isolate.Run.Job

/-!
# Runs

A run carries out one job: it takes an idle container or provides one, uploads the files, executes
the command and removes the container, whatever became of the execution.

* `Run.begin`: a run that was given an idle container or has to provide its own;
* `Run.step`: what a signal does;
* `Run.leased?`: the container that the run has to itself.
-/

namespace Isolate

namespace Run

/-- How far a run has come. -/
inductive Stage where
  | provisioning (job : Job) (provision : Provision)
  | uploading (job : Job) (id : ContainerId) (archive : Bytes)
  | executing (execution : Execution)
  | releasing (removal : Removal) (result : Execution.Result)
  | done (result : Execution.Result)

end Run

/-- A run, and whether its caller has cancelled it. -/
structure Run where
  cancelled : Bool
  stage : Run.Stage

namespace Run

namespace Stage

/-- What the engine is asked on the way into a stage. -/
def call? : Stage → Option Call
  | .provisioning _ provision => some provision.call
  | .uploading _ id archive => some (.upload id workingDir archive)
  | .executing x => x.call?
  | .releasing removal _ => some removal.call
  | .done _ => none

/-- The moment that is waited for. -/
def wake? : Stage → Option Instant
  | .provisioning _ provision => provision.wake?
  | .uploading _ _ _ => none
  | .executing x => x.wake?
  | .releasing removal _ => some removal.giveUpAt
  | .done _ => none

/-- The container that a run has to itself. -/
def leased? : Stage → Option ContainerId
  | .provisioning _ _ => none
  | .uploading _ id _ => some id
  | .executing x => some x.container
  | .releasing removal _ => some removal.id
  | .done _ => none

end Stage

/-- The container goes, and the result is kept until it is gone. -/
def release (now : Instant) (id : ContainerId) (result : Execution.Result) : Stage :=
  .releasing (.begin now id) result

/-- The stage of a run that has got its container: the files are packed, with a time stamp, and
uploaded. -/
def acquired (now stamp : Nat) (job : Job) (id : ContainerId) : Stage :=
  match Archive.pack stamp job.files with
  | .ok archive => .uploading job id archive
  | .error e => release now id (.error (.transfer (.archive e)))

/-- The stage after an execution in a container went on or was finished. -/
def afterExecution (now : Instant) (id : ContainerId) : Progress Execution Execution.Result → Stage
  | .going x => .executing x
  | .finished result => release now id result

/-- The first stage of a job. -/
def begin (now stamp : Nat) (job : Job) : Option ContainerId → Stage
  | some id => acquired now stamp job id
  | none => .provisioning job (.creating job.spec)

/-- What a signal does to a stage. -/
def Stage.step (now stamp : Nat) (cancelled : Bool) : Stage → Signal → Option Stage
  | .provisioning job provision, s =>
    match provision.step now s with
    | some (.going provision) => some (.provisioning job provision)
    | some (.finished (.ok id)) => some (acquired now stamp job id)
    | some (.finished (.error e)) => some (.done (.error (.provision e)))
    | none => none
  | .uploading job id _, .reply (.done (.ok _)) =>
    some (afterExecution now id
      (Execution.begin now id job.argv job.timeLimit job.maxOutput cancelled))
  | .uploading _ id _, .reply (.done (.error e)) =>
    some (release now id (.error (.transfer e)))
  | .executing x, s => (x.step now cancelled s).map (afterExecution now x.container)
  | .releasing removal result, s =>
    match removal.step now s with
    | some (.finished _) => some (.done result)
    | some (.going removal) => some (.releasing removal result)
    | none => none
  | _, _ => none

/-- What a signal does to a run. -/
def step (now stamp : Nat) (r : Run) (s : Signal) : Option Run :=
  (r.stage.step now stamp r.cancelled s).map fun stage => { r with stage }

end Run

end Isolate
