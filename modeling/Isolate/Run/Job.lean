import Isolate.Archive.Pack
import Isolate.Config.Basic
import Isolate.Request.Basic

/-!
# Jobs

A job is a request together with what the configuration says about it:

* `Config.job?`: the job of a request, if its language is known;
* `Job.spec`, `Job.files`, `Job.argv`: the container, the files and the command of a job;
* `Job.takesIdle`: whether an idle container of the language will do.
-/

namespace Isolate

/-- A request whose language is known, with the limits that apply. -/
structure Job where
  profile : Profile
  request : Request
  timeLimit : Duration
  /-- The most bytes kept of each output stream. -/
  maxOutput : Nat

/-- The job of a request. -/
def Config.job? (c : Config) (r : Request) : Option Job :=
  (c.profile? r.language).map fun p => ⟨p, r, c.timeLimit p r.time, c.maxOutput.toNat⟩

namespace Job

/-- The container that the job needs. -/
def spec (j : Job) : ContainerSpec := j.profile.containerSpec j.request.memory

/-- An idle container will do: those have the memory limit of the profile. -/
def takesIdle (j : Job) : Bool :=
  j.profile.memoryLimit j.request.memory == j.profile.ownMemoryLimit

/-- The source file, and the input if there is any. -/
def files (j : Job) : List Archive.File :=
  ⟨j.profile.sourceFile.name, Utf8.encode j.request.code⟩ ::
    (j.request.input.map fun input => ⟨inputFileName, Utf8.encode input⟩).toList

/-- The command that runs the submission. -/
def argv (j : Job) : List String := (j.profile.script j.request.input.isSome).argv

end Job

end Isolate
