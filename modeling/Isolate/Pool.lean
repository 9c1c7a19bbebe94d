import Isolate.Container

/-!
# Warm pools

A pool holds started containers of one language that wait for a submission, first in, first out and
never more than its capacity:

* `WarmPool.push`: stores a container, or hands it back if the pool is full;
* `WarmPool.take`: the container that waited longest;
* `WarmPool.drain`: all of them;
* `WarmPool.perform`: any of these operations, with its answer.
-/

namespace Isolate

/-- Idle containers of one language, the one that waited longest first. -/
structure WarmPool where
  language : String
  capacity : Nat
  idle : List ContainerId
  deriving DecidableEq, Repr

namespace WarmPool

/-- The most bytes that can be reserved at once. -/
def maxReservation : Nat := bound63 - 1

/-- The bytes reserved for each place of a pool. -/
def placeSize : Nat := 24

/-- The places of a pool of this capacity can be reserved. -/
def Reservable (capacity : Nat) : Prop := capacity * placeSize ≤ maxReservation

instance (capacity : Nat) : Decidable (Reservable capacity) :=
  inferInstanceAs (Decidable (_ ≤ _))

/-- A pool with no container in it. -/
def empty (language : String) (capacity : Nat) : WarmPool := ⟨language, capacity, []⟩

/-- How many containers are idle. -/
def size (p : WarmPool) : Nat := p.idle.length

/-- No container is idle. -/
def isEmpty (p : WarmPool) : Bool := p.idle.isEmpty

/-- No further container can be stored. -/
def isFull (p : WarmPool) : Bool := p.capacity ≤ p.size

/-- Stores a container, unless the pool is full. -/
def push (p : WarmPool) (id : ContainerId) : Option WarmPool :=
  if p.isFull then none else some { p with idle := p.idle ++ [id] }

/-- Takes the container that waited longest. -/
def take (p : WarmPool) : Option ContainerId × WarmPool :=
  (p.idle.head?, { p with idle := p.idle.tail })

/-- Takes all containers. -/
def drain (p : WarmPool) : List ContainerId × WarmPool := (p.idle, { p with idle := [] })

/-- What a pool can be asked for. -/
inductive Operation where
  | push (id : ContainerId)
  | take
  | drain
  deriving DecidableEq, Repr

/-- What a pool answers. -/
inductive Answer where
  | stored
  /-- The pool is full: the container is handed back. -/
  | rejected (id : ContainerId)
  | taken (id : Option ContainerId)
  | drained (ids : List ContainerId)
  deriving DecidableEq, Repr

/-- Carries out one operation. -/
def perform (p : WarmPool) : Operation → Answer × WarmPool
  | .push id =>
    match p.push id with
    | some next => (.stored, next)
    | none => (.rejected id, p)
  | .take => (.taken p.take.1, p.take.2)
  | .drain => (.drained p.drain.1, p.drain.2)

@[simp] theorem idle_empty (language : String) (capacity : Nat) :
    (empty language capacity).idle = [] := rfl

@[simp] theorem idle_take (p : WarmPool) : p.take.2.idle = p.idle.tail := rfl

@[simp] theorem idle_drain (p : WarmPool) : p.drain.2.idle = [] := rfl

@[simp] theorem drain_fst (p : WarmPool) : p.drain.1 = p.idle := rfl

end WarmPool

end Isolate
