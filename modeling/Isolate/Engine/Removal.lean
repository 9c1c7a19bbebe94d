import Isolate.Engine.Basic
import Isolate.Time

/-!
# Removing a container

* `Removal`: a removal under way; a failure is passed over, and so is an engine that takes too long.
-/

namespace Isolate

/-- A container that the engine was asked to remove. -/
structure Removal where
  id : ContainerId
  /-- When the answer is waited for no longer. -/
  giveUpAt : Instant
  deriving DecidableEq, Repr

namespace Removal

/-- How long the answer to a removal is waited for. -/
def patience : Duration := .ofWholeSeconds 5

/-- The removal of a container, begun now. -/
def begin (now : Instant) (id : ContainerId) : Removal := ⟨id, now.after patience⟩

/-- What the engine is asked. -/
def call (r : Removal) : Call := .remove r.id

/-- A removal is over when it is answered, whatever the answer, or given up. -/
def step (now : Instant) (r : Removal) : Signal → Option (Progress Removal Unit)
  | .reply (.done _) => some (.finished ())
  | .timer => if r.giveUpAt ≤ now then some (.finished ()) else none
  | _ => none

end Removal

end Isolate
