import Isolate.Language

/-!
# Containers

* `ContainerId`, `ExecId`: names that the engine gives to containers and to commands in them;
* `ContainerSpec`: everything needed to create a container;
* `Profile.containerSpec`: the hardened container that every submission runs in, of which only the
  memory limit can differ between requests for the same language.
-/

namespace Isolate

/-- The engine's name of a container. -/
structure ContainerId where
  text : String
  deriving DecidableEq, Repr, Inhabited, Hashable

/-- The first twelve bytes of a container's name, or all of it if they end inside a character. -/
def ContainerId.short (id : ContainerId) : String :=
  let rec go : Nat → List Char → Option (List Char)
    | 0, _ => some []
    | _, [] => some []
    | room, c :: cs => if c.utf8Size ≤ room then (go (room - c.utf8Size) cs).map (c :: ·) else none
  (go 12 id.text.toList).elim id.text String.ofList

/-- The engine's name of a command in a container. -/
structure ExecId where
  text : String
  deriving DecidableEq, Repr, Inhabited, Hashable

/-- A container to be created. -/
structure ContainerSpec where
  image : String
  /-- Bytes. -/
  memory : UInt64
  /-- Thousand-millionths of a processor. -/
  nanoCpus : Nat
  maxProcesses : Nat
  network : Bool
  droppedCapabilities : List String
  /-- Mount points of scratch file systems, with their options. -/
  scratch : List (String × String)
  workingDir : String
  /-- What the container runs while it waits for a submission. -/
  command : List String
  deriving DecidableEq, Repr

/-- Where submissions are stored and run. -/
def workingDir : String := "/app"

/-- The container for a submission: one processor, few processes, no network and no privileges. -/
def Profile.containerSpec (p : Profile) (override : Option UInt64) : ContainerSpec where
  image := p.image
  memory := p.memoryLimit override
  nanoCpus := 1000000000
  maxProcesses := 64
  network := false
  droppedCapabilities := ["ALL"]
  scratch := [("/tmp", ""), ("/run", "")]
  workingDir := Isolate.workingDir
  command := ["tail", "-f", "/dev/null"]

end Isolate
