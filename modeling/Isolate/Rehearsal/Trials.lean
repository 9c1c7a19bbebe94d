import Isolate.CommandLine.Report
import Isolate.Rehearsal.Routes

/-!
# Many runs of one request

Rehearses many runs of one request over a scripted daemon: first the warm pool of the language is
given time to fill, then so many runs are under way at once.

* `Trials.warmUp`: waits for a pool, but not for ever;
* `Trials.conduct`: the runs, in the order in which they end.
-/

namespace Isolate.Trials

open CommandLine Routes

/-- A play over a scripted daemon. -/
abbrev Scripted := Play Routes.Stage Unit

/-- How often a pool is looked at, every hundred milliseconds, before the runs begin anyway. -/
def looks : Nat := 300

/-- Waits until the pool of a language is full, if there is one. -/
def warmUp (language : String) : Nat → Scripted → Scripted
  | 0, p => p
  | n + 1, p =>
    match p.supervisor.pool? language with
    | none => p
    | some pool => if pool.isFull then p else warmUp language n (p.wait responder 100)

/-- A run under way: its number, its task and when it began. -/
structure Entrant where
  number : Nat
  task : Nat
  began : Instant

/-- The trial of a run that has ended. -/
def ended? (p : Scripted) (e : Entrant) : Option Trial :=
  (p.result? e.task).map fun result => ⟨e.number, e.began.since p.supervisor.now, result⟩

/-- Begins the next run. -/
def enter (request : Request) (number : Nat) (p : Scripted) : Entrant × Scripted :=
  (⟨number, p.supervisor.tasks.length, p.supervisor.now⟩, p.attempt responder (.run request false))

/-- Begins runs until so many are under way or none is left. -/
def fill (request : Request) (concurrency count : Nat) :
    Nat → Nat → List Entrant → Scripted → Nat × List Entrant × Scripted
  | 0, number, entrants, p => (number, entrants, p)
  | room + 1, number, entrants, p =>
    if entrants.length < concurrency ∧ number < count then
      let (e, p) := enter request number p
      fill request concurrency count room (number + 1) (entrants ++ [e]) p
    else (number, entrants, p)

/-- Carries out what is left of the runs; none if one of them has no end. The first argument bounds
how many runs have still to end. -/
def conduct (request : Request) (concurrency count : Nat) :
    Nat → Nat → List Entrant → Scripted → Option (List Trial × Scripted)
  | 0, _, _, p => some ([], p)
  | left + 1, number, entrants, p => do
    let (number, entrants, p) := fill request concurrency count concurrency number entrants p
    let p ← p.waitUntil responder fun p => entrants.any fun e => (ended? p e).isSome
    let e ← entrants.find? fun e => (ended? p e).isSome
    let trial ← ended? p e
    let (trials, p) ←
      conduct request concurrency count left number (entrants.filter (·.number != e.number)) p
    some (trial :: trials, p)

/-- So many runs of a request, with the pools set up before and stopped after them. -/
def bench (supervisor : Supervisor) (request : Request) (count concurrency : Nat)
    (stage : Routes.Stage) : Option (Bench × Routes.Stage) := do
  let p := warmUp request.language looks (Play.begin supervisor stage)
  let start := p.supervisor.now
  let (trials, p) ← conduct request concurrency count count 0 [] p
  let total := start.since p.supervisor.now
  let p := p.attempt responder .close
  let p ← p.waitUntil responder fun p => !p.supervisor.tasks.any Play.isNeeded
  some (⟨trials, total⟩, p.engine)

end Isolate.Trials
