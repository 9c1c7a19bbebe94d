import Isolate.Proofs.Supervisor.Closing
import Isolate.Proofs.Supervisor.Layout
import Isolate.Proofs.Supervisor.Upkeep

/-!
# Who answers for a container

At every moment a container that exists is in a pool or in the hands of one task. A task holds the
containers that it provides, uses or will ask the engine to remove, and it still answers for the one
whose removal it waits for.

* `Task.holding`, `Task.removing`, `Task.inHand`: what a task answers for;
* `Run.inHand_step`, `Upkeep.count_step`, `Closing.count_sweep`: how containers change hands when a
  task goes on.
-/

namespace Isolate

theorem Event.created?_signal (k : ℕ) (sig : Signal) :
    Event.created? (.signal k sig) = sig.created? := by
  unfold Event.created? Signal.created?
  split <;> simp_all

namespace Task

/-- The containers that a task provides, uses or will ask the engine to remove. -/
def holding (t : Task) : List ContainerId := t.starting ++ t.leased ++ t.waiting

/-- The container that the engine is asked to remove on the way into a state. -/
def removing (t : Task) : List ContainerId := (t.call?.bind Call.removed?).toList

/-- The containers that a task answers for. -/
def inHand (t : Task) : List ContainerId := t.holding ++ t.removing

end Task

/-! ### Provisions and runs -/

/-- A provision holds what was created for it until it asks for its removal. -/
theorem Provision.held_of_going {now : Instant} {p p' : Provision} {sig : Signal}
    (h : p.step now sig = some (.going p')) :
    p'.held ++ p'.call.removed?.toList = p.held ++ sig.created?.toList := by
  rcases step_eq_some h with ⟨spec, id, rfl, rfl, hq⟩ | ⟨spec, e, rfl, rfl, hq⟩ | ⟨id, rfl, rfl, hq⟩ |
    ⟨id, e, rfl, rfl, hq⟩ | ⟨removal, e, rfl, _, hq⟩ <;> cases hq
  · rfl
  · rfl

/-- A provision that succeeds hands over what it holds; one that fails holds nothing any more. -/
theorem Provision.held_of_finished {now : Instant} {p : Provision} {sig : Signal}
    {result : Except EngineError ContainerId} (h : p.step now sig = some (.finished result)) :
    result.toOption.toList = p.held ∧ sig.created? = none := by
  rcases step_eq_some h with ⟨spec, id, rfl, rfl, hq⟩ | ⟨spec, e, rfl, rfl, hq⟩ | ⟨id, rfl, rfl, hq⟩ |
    ⟨id, e, rfl, rfl, hq⟩ | ⟨removal, e, rfl, hr, hq⟩ <;> cases hq
  · exact ⟨rfl, rfl⟩
  · exact ⟨rfl, rfl⟩
  · exact ⟨rfl, Removal.created?_of_step hr⟩

theorem Execution.removed?_call? (x : Execution) : x.call?.bind Call.removed? = none := by
  unfold call?
  split <;> rfl

namespace Run

theorem holding_eq (r : Run) : (Task.run r).holding = r.stage.starting ++ r.stage.using := by
  simp [Task.holding, Task.starting, Task.leased, Task.waiting]

theorem inHand_eq (r : Run) : (Task.run r).inHand =
    r.stage.starting ++ r.stage.using ++ (r.stage.call?.bind Call.removed?).toList := by
  rw [Task.inHand, holding_eq]
  rfl

theorem inHand_executing (c : Bool) (x : Execution) :
    (Task.run ⟨c, .executing x⟩).inHand = [x.container] := by
  simp [inHand_eq, Stage.starting, Stage.using, Stage.call?, x.removed?_call?]

/-- A run answers for the container that it gets, whether or not its files can be packed. -/
theorem inHand_acquired (c : Bool) (now stamp : ℕ) (job : Job) (id : ContainerId) :
    (Task.run ⟨c, acquired now stamp job id⟩).inHand = [id] := by
  unfold acquired
  split
  · rfl
  · rfl

theorem inHand_afterExecution (c : Bool) {now : Instant} {id : ContainerId}
    {p : Progress Execution Execution.Result} (h : ∀ x, p = .going x → x.container = id) :
    (Task.run ⟨c, afterExecution now id p⟩).inHand = [id] := by
  cases p with
  | going x => rw [afterExecution, inHand_executing, h x rfl]
  | finished result => rfl

/-- What a run answers for after a step is what it held before, and what was created. -/
theorem inHand_step {now stamp : ℕ} {r r' : Run} {sig : Signal}
    (h : r.step now stamp sig = some r') :
    (Task.run r').inHand = (Task.run r).holding ++ sig.created?.toList := by
  obtain ⟨stage', hs, rfl⟩ := Option.map_eq_some_iff.1 h
  obtain ⟨c, stage⟩ := r
  rw [holding_eq]
  cases stage with
  | provisioning job provision =>
    rcases step_provisioning hs with ⟨p, hp, rfl⟩ | ⟨id, hp, rfl⟩ | ⟨e, hp, rfl⟩
    · have := provision.held_of_going hp
      simpa [inHand_eq, Stage.starting, Stage.using, Stage.call?] using this
    · obtain ⟨hh, hc⟩ := provision.held_of_finished hp
      rw [inHand_acquired, hc]
      simpa [Except.toOption, Stage.starting, Stage.using] using hh
    · obtain ⟨hh, hc⟩ := provision.held_of_finished hp
      rw [hc]
      simpa [Except.toOption, inHand_eq, Stage.starting, Stage.using, Stage.call?] using hh
  | uploading job id archive =>
    rcases step_uploading hs with ⟨rfl, rfl⟩ | ⟨e, rfl, rfl⟩
    · refine inHand_afterExecution c fun x hx => ?_
      unfold Execution.begin at hx
      split_ifs at hx
      cases hx
      rfl
    · rfl
  | executing x =>
    obtain ⟨p, hp, rfl⟩ := step_executing hs
    rw [Execution.created?_of_step hp]
    refine inHand_afterExecution c fun x' hx => ?_
    subst hx
    obtain ⟨point, rfl⟩ := Execution.point_of_going hp
    rfl
  | releasing removal result =>
    obtain ⟨hr, rfl⟩ := step_releasing hs
    rw [Removal.created?_of_step hr]
    rfl
  | done result => simp [step_done] at hs

end Run

/-! ### Upkeep tasks -/

theorem WarmPool.push_eq_some {pool pool' : WarmPool} {id : ContainerId}
    (h : pool.push id = some pool') : pool' = { pool with idle := pool.idle ++ [id] } := by
  unfold push at h
  split_ifs at h
  exact (Option.some.inj h).symm

namespace Upkeep

theorem holding_eq (u : Upkeep) :
    (Task.upkeep u).holding = u.point.starting ++ u.point.waiting := by
  simp [Task.holding, Task.starting, Task.leased, Task.waiting]

theorem inHand_eq (u : Upkeep) : (Task.upkeep u).inHand =
    u.point.starting ++ u.point.waiting ++ (u.point.call?.bind Call.removed?).toList := by
  rw [Task.inHand, holding_eq]
  rfl

/-- A task on its way out answers for what it took from its pool. -/
theorem count_empty (language : String) (spec : ContainerSpec) (now : Instant)
    (ids : List ContainerId) (id : ContainerId) :
    (Task.upkeep ⟨language, spec, empty now ids⟩).inHand.count id = ids.count id := by
  cases ids with
  | nil => rfl
  | cons first rest =>
    have : (Task.upkeep ⟨language, spec, empty now (first :: rest)⟩).inHand = rest ++ [first] := rfl
    rw [this, List.count_append, List.count_singleton, List.count_cons]

/-- What an upkeep task and its pool have after a step is what they had before, and what was
created. -/
theorem count_step {settings : PoolSettings} {now : Instant} {stopping : Bool} {u u' : Upkeep}
    {pool pool' : WarmPool} {sig : Signal}
    (h : u.step settings now stopping pool sig = some (u', pool')) (id : ContainerId) :
    (Task.upkeep u').inHand.count id + pool'.idle.count id =
      (Task.upkeep u).holding.count id + pool.idle.count id + sig.created?.toList.count id := by
  obtain ⟨point', rfl, hp⟩ := step_eq_some h
  obtain ⟨language, spec, point⟩ := u
  rw [holding_eq]
  cases point with
  | polling wake =>
    obtain ⟨rfl, ⟨rfl, _, rfl⟩ | ⟨rfl, _, rfl⟩⟩ := Point.step_polling hp <;> rfl
  | checking =>
    obtain ⟨rfl, rfl, ⟨_, ⟨_⟩ | ⟨_, _⟩⟩ | ⟨_, rfl⟩⟩ := Point.step_checking hp <;> rfl
  | provisioning provision =>
    obtain ⟨rfl, ⟨p, hq, rfl⟩ | ⟨new, hq, rfl⟩ | ⟨e, hq, hwait⟩⟩ := Point.step_provisioning hp
    · have := congrArg (List.count id) (provision.held_of_going hq)
      simp only [List.count_append] at this
      simp only [inHand_eq, Point.starting, Point.waiting, Point.call?, Option.bind_some,
        List.count_append, List.count_nil]
      omega
    · obtain ⟨hh, hc⟩ := provision.held_of_finished hq
      rw [hc]
      simp [inHand_eq, Point.starting, Point.waiting, Point.call?, ← hh, Except.toOption]
    · obtain ⟨hh, hc⟩ := provision.held_of_finished hq
      rw [hc]
      cases hwait <;>
        simp [inHand_eq, Point.starting, Point.waiting, Point.call?, ← hh, Except.toOption]
  | deciding new =>
    obtain ⟨rfl, rfl, ⟨_, rfl⟩ | ⟨_, rfl⟩⟩ := Point.step_deciding hp <;> rfl
  | storing new =>
    obtain ⟨rfl, ⟨hpush, hwait⟩ | ⟨_, rfl, rfl⟩⟩ := Point.step_storing hp
    · rw [WarmPool.push_eq_some hpush]
      cases hwait <;>
        simp [inHand_eq, Point.starting, Point.waiting, Point.call?, Signal.created?, Nat.add_comm]
    · rfl
  | discarding removal last =>
    obtain ⟨rfl, hr, ⟨_, rfl⟩ | ⟨_, ⟨_⟩ | ⟨_, _⟩⟩⟩ := Point.step_discarding hp <;>
      rw [Removal.created?_of_step hr] <;> rfl
  | backingOff wake =>
    obtain ⟨rfl, ⟨rfl, _, ⟨_⟩ | ⟨_, _⟩⟩ | ⟨rfl, _, rfl⟩⟩ := Point.step_backingOff hp <;> rfl
  | leaving =>
    obtain ⟨rfl, rfl, rfl⟩ := Point.step_leaving hp
    rw [count_empty]
    simp [Point.starting, Point.waiting, Signal.created?]
  | emptying removal rest =>
    obtain ⟨rfl, hr, rfl⟩ := Point.step_emptying hp
    rw [count_empty, Removal.created?_of_step hr]
    simp [Point.starting, Point.waiting]
  | ended => simp [Point.step_ended] at hp

end Upkeep

/-! ### Requests to stop -/

theorem Closing.holding_eq (c : Closing) : (Task.closing c).holding = c.waiting := by
  simp [Task.holding, Task.starting, Task.leased, Task.waiting]

/-- A closing answers for what it took from a pool. -/
theorem Closing.count_sweep (now : Instant) (languages : List String) (ids : List ContainerId)
    (id : ContainerId) :
    (Task.closing (sweep now languages ids)).inHand.count id = ids.count id := by
  cases ids with
  | nil => cases languages <;> rfl
  | cons first rest =>
    have : (Task.closing (sweep now languages (first :: rest))).inHand = rest ++ [first] := rfl
    rw [this, List.count_append, List.count_singleton, List.count_cons]

end Isolate
