import Isolate.Text.Utf8

/-!
# Bounded capture of an output stream

A `Capture` keeps the first bytes of a stream, up to a cap, and remembers whether more came:

* `Capture.push` takes the next chunk;
* `Capture.text` is what is shown of the stream: the kept bytes as text, and a marker if some bytes
  were not kept.
-/

namespace Isolate

/-- The bytes kept of one output stream. -/
structure Capture where
  /-- The most bytes that are kept. -/
  cap : Nat
  kept : Bytes
  truncated : Bool
  deriving DecidableEq, Repr

namespace Capture

/-- Shown after the text of a stream of which bytes were lost. -/
def marker : String := "...[truncated]"

/-- Nothing captured yet. -/
def empty (cap : Nat) : Capture := ⟨cap, [], false⟩

/-- How many more bytes can be kept. -/
def room (c : Capture) : Nat := c.cap - c.kept.length

/-- Keeps as much of a chunk as there is room for. -/
def push (c : Capture) (chunk : Bytes) : Capture :=
  { c with
    kept := c.kept ++ chunk.take c.room
    truncated := c.truncated || decide (c.room < chunk.length) }

/-- The captured text, with the marker if bytes were lost. -/
def text (c : Capture) : String :=
  Utf8.decodeLossy c.kept ++ if c.truncated then marker else ""

@[simp] theorem cap_push (c : Capture) (chunk : Bytes) : (c.push chunk).cap = c.cap := rfl

@[simp] theorem kept_push (c : Capture) (chunk : Bytes) :
    (c.push chunk).kept = c.kept ++ chunk.take c.room := rfl

end Capture

end Isolate
