import Isolate.Supervisor.Step

/-!
# Playing a supervisor

A supervisor leaves open which of the possible events happens next and what the engine answers. Here
both are settled: the answers come from a `Responder`, time goes on only when every task waits, and at
each moment everything that can happen happens.

* `Play.settle`: everything that can happen at this moment;
* `Play.wait`: time goes on by so much;
* `Play.waitUntil`: time goes on until something has come to its end.
-/

namespace Isolate

/-- Something that answers calls. Its state is `σ`, and it remembers a `τ` for each open call. -/
structure Responder (σ τ : Type) where
  /-- A call comes in: how many milliseconds it takes to answer it. -/
  begin : Instant → Call → σ → Nat × τ × σ
  /-- The answer to a call, and for a command the pieces of its output, each with the milliseconds
  that pass before it comes. -/
  finish : Instant → Call → τ → σ → Reply × List (Nat × Reply) × σ

namespace Play

/-- What a task waits for. -/
inductive Source (τ : Type) where
  | call (call : Call) (ticket : τ)
  | stream (next : Reply) (rest : List (Nat × Reply))

/-- An answer on its way. -/
structure Awaited (τ : Type) where
  task : Nat
  due : Instant
  source : Source τ

end Play

/-- A supervisor at play. -/
structure Play (σ τ : Type) where
  supervisor : Supervisor
  engine : σ
  awaited : List (Play.Awaited τ)
  /-- When which run will be cancelled. -/
  alarms : List (Instant × Nat)
  /-- Nobody needs the supervisor but the tasks under way. -/
  released : Bool

namespace Play

variable {σ τ : Type}

/-- The beginning of a play. -/
def begin (supervisor : Supervisor) (engine : σ) : Play σ τ := ⟨supervisor, engine, [], [], false⟩

/-- Nothing is waited for by a task any more. -/
def forget (awaited : List (Awaited τ)) (k : Nat) : List (Awaited τ) :=
  awaited.filter (·.task != k)

/-- Hands new calls to the responder. -/
def issue (r : Responder σ τ) (p : Play σ τ) : List (Nat × Call) → Play σ τ
  | [] => p
  | (k, call) :: calls =>
    let (delay, ticket, engine) := r.begin p.supervisor.now call p.engine
    let answer : Awaited τ := ⟨k, p.supervisor.now + delay, .call call ticket⟩
    issue r { p with engine, awaited := p.awaited ++ [answer] } calls

/-- What an event does to a play, if it can happen. -/
def happen (r : Responder σ τ) (p : Play σ τ) (e : Event) : Option (Play σ τ) :=
  (p.supervisor.step e).map fun supervisor =>
    let awaited := match e with
      | .signal k _ => forget p.awaited k
      | .drop k => forget p.awaited k
      | _ => p.awaited
    let fresh := supervisor.calls.take (supervisor.calls.length - p.supervisor.calls.length)
    issue r { p with supervisor, awaited } fresh.reverse

/-- What an event does to a play; nothing if it cannot happen. -/
def attempt (r : Responder σ τ) (p : Play σ τ) (e : Event) : Play σ τ := (p.happen r e).getD p

/-- The next piece of output is on its way. -/
def schedule (p : Play σ τ) (k : Nat) : List (Nat × Reply) → Play σ τ
  | [] => p
  | (delay, next) :: rest =>
    { p with awaited := p.awaited ++ [⟨k, p.supervisor.now + delay, .stream next rest⟩] }

/-- An answer arrives. -/
def deliver (r : Responder σ τ) (p : Play σ τ) (a : Awaited τ) : Play σ τ :=
  let p := { p with awaited := forget p.awaited a.task }
  match a.source with
  | .call call ticket =>
    let (reply, output, engine) := r.finish p.supervisor.now call ticket p.engine
    (attempt r { p with engine } (.signal a.task (.reply reply))).schedule a.task output
  | .stream next rest => (attempt r p (.signal a.task (.reply next))).schedule a.task rest

/-- The first cancellation that is due. -/
def cancelNext (r : Responder σ τ) (p : Play σ τ) : Option (Play σ τ) :=
  match p.alarms.find? (·.1 ≤ p.supervisor.now) with
  | some alarm =>
    some (attempt r { p with alarms := p.alarms.filter (· != alarm) } (.cancel alarm.2))
  | none => none

/-- The first task that sees a sign or need not wait. -/
def proceedNext (r : Responder σ τ) (p : Play σ τ) : Option (Play σ τ) :=
  (List.range p.supervisor.tasks.length).findSome? fun k =>
    (p.happen r (.signal k .notice)).or (p.happen r (.signal k .proceed))

/-- The first answer that is due. -/
def deliverNext (r : Responder σ τ) (p : Play σ τ) : Option (Play σ τ) :=
  (p.awaited.find? (·.due ≤ p.supervisor.now)).map (p.deliver r)

/-- The first task whose time has come. -/
def wakeNext (r : Responder σ τ) (p : Play σ τ) : Option (Play σ τ) :=
  (List.range p.supervisor.tasks.length).findSome? fun k => p.happen r (.signal k .timer)

/-- A run or a closing is under way, for which the supervisor is still needed. -/
def isNeeded : Task → Bool
  | .run ⟨_, .done _⟩ => false
  | .run _ => true
  | .closing .ended => false
  | .closing _ => true
  | _ => false

/-- Gives the supervisor up once it was released and no task needs it. -/
def abandonNext (r : Responder σ τ) (p : Play σ τ) : Option (Play σ τ) :=
  if p.released && !p.supervisor.stopping && !p.supervisor.tasks.any isNeeded then p.happen r .abandon
  else none

/-- What happens first of all that can happen at this moment. A task sees a sign before an answer,
and an answer before the end of its patience. -/
def next (r : Responder σ τ) (p : Play σ τ) : Option (Play σ τ) :=
  (p.cancelNext r).or ((p.proceedNext r).or ((p.deliverNext r).or
    ((p.wakeNext r).or (p.abandonNext r))))

/-- Everything that can happen at this moment, at most `fuel` events. -/
def settle (r : Responder σ τ) : Nat → Play σ τ → Play σ τ
  | 0, p => p
  | fuel + 1, p =>
    match p.next r with
    | some p => settle r fuel p
    | none => p

/-- The next moment at which something is due. -/
def nextMoment? (p : Play σ τ) : Option Instant :=
  let moments := p.supervisor.tasks.filterMap Task.wake? ++ p.awaited.map (·.due) ++
    p.alarms.map (·.1)
  moments.min?

/-- Time goes on to a moment. -/
def skip (r : Responder σ τ) (p : Play σ τ) (moment : Instant) : Play σ τ :=
  attempt r p (.advance (max p.supervisor.now moment))

/-- The most events at one moment. -/
def settleFuel : Nat := 1000000

/-- Time goes on to a moment, with everything that happens meanwhile and at that moment; at most
`fuel` moments are visited. -/
def reach (r : Responder σ τ) : Nat → Instant → Play σ τ → Play σ τ
  | 0, _, p => p
  | fuel + 1, moment, p =>
    let p := p.settle r settleFuel
    if moment ≤ p.supervisor.now then p
    else
      let stop := (p.nextMoment?.map (min moment)).getD moment
      reach r fuel moment (p.skip r stop)

/-- The latest moment of a play. -/
def horizon : Instant := 100000000

/-- Time goes on until the play has come to where it shall, or none if it never does. -/
def untilFrom (r : Responder σ τ) (reached : Play σ τ → Bool) : Nat → Play σ τ → Option (Play σ τ)
  | 0, _ => none
  | fuel + 1, p =>
    let p := p.settle r settleFuel
    if reached p then some p
    else match p.nextMoment? with
      | some moment =>
        if moment ≤ horizon then untilFrom r reached fuel (p.skip r moment) else none
      | none => none

/-- Time goes on by so many milliseconds. -/
def wait (r : Responder σ τ) (ms : Nat) (p : Play σ τ) : Play σ τ :=
  reach r (horizon + 1) (p.supervisor.now + ms) p

/-- Time goes on until the play has come to where it shall, or none if it never does. -/
def waitUntil (r : Responder σ τ) (reached : Play σ τ → Bool) (p : Play σ τ) : Option (Play σ τ) :=
  untilFrom r reached (horizon + 1) p

/-- The result of a run that is done. -/
def result? (p : Play σ τ) (k : Nat) : Option Execution.Result :=
  match p.supervisor.tasks[k]? with
  | some (.run ⟨_, .done result⟩) => some result
  | _ => none

end Play

end Isolate
