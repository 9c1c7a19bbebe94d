import Isolate.Config.Validity
import Isolate.Daemon.Request
import Isolate.Proofs.Pool
import Isolate.Proofs.Supervisor.Limit
import Isolate.Proofs.Supervisor.Pacing

/-!
# Operations that stop a program

Some operations stop a program for some of their operands: so many places cannot be reserved, a
number does not fit. Here such operations are written down for the start of a supervisor and for
everything that can happen to it, with the operands that they have there. The places of the pools
may be too many to be reserved at the start, whatever else is configured. Everything else is safe,
in every state that a supervisor can come to.

* `Hazard`, `Hazard.Safe`: the operations, and the operands for which they go on;
* `Config.hazards`, `Supervisor.hazards`: what is carried out at the start, and with an event;
* `roomy_after`: no pool ever holds more than was reserved for it, for nothing happens to it but its
  own operations;
* `stops_only_at_start`: where a supervisor may stop.
-/

namespace Isolate

/-- An operation that stops the program for some operands. The growth of memory for data that is
there already is none: the memory itself would be used up before. -/
inductive Hazard where
  /-- Reserves places for containers at once. -/
  | reserve (places : ℕ)
  /-- Adds a container to those that are held in the places reserved for them. Without a free place
  twice as many would have to be reserved. -/
  | append (held places : ℕ)
  /-- Cuts off the beginning of a byte string. -/
  | cut (upTo length : ℕ)
  /-- Forms a span of time. -/
  | span (nanos : ℕ)
  /-- Forms a moment of the clock. -/
  | moment (nanos : ℕ)
  /-- Keeps an integer in 32 bits with its sign. -/
  | int32 (value : ℤ)
  /-- Keeps an integer in 64 bits with its sign. -/
  | int64 (value : ℤ)

/-- The program goes on after the operation. -/
def Hazard.Safe : Hazard → Prop
  | .reserve places => WarmPool.Reservable places
  | .append held places => held < places
  | .cut upTo length => upTo ≤ length
  | .span nanos => nanos ≤ Duration.max.nanos
  | .moment nanos => nanos < Instant.horizon
  | .int32 value => isInt32 value = true
  | .int64 value => isInt64 value = true

/-! ### Operations -/

/-- Creates a container: the daemon is told the memory limit. -/
def ContainerSpec.hazards (spec : ContainerSpec) : List Hazard := [.int64 (Daemon.hostMemory spec)]

/-- Stores a container in a pool with so many reserved places, unless it is handed back. -/
def WarmPool.hazards (reserved : ℕ) (id : ContainerId) (pool : WarmPool) : List Hazard :=
  match pool.push id with
  | some _ => [.append pool.size reserved]
  | none => []

/-- Keeps the beginning of a chunk. -/
def Capture.hazards (c : Capture) (chunk : Bytes) : List Hazard :=
  [.cut ((c.push chunk).kept.length - c.kept.length) chunk.length]

/-- Shows an outcome. -/
def Outcome.hazards (o : Outcome) : List Hazard := [.int32 o.exitCode, .span o.timeUsed.nanos]

/-- Waits between the looks at a pool, and after a failure. -/
def PoolSettings.hazards (settings : PoolSettings) : List Hazard :=
  [.span (Duration.ofMillis settings.pollInterval).nanos,
    .span (Duration.ofMillis settings.retryBackoff).nanos]

/-- Removes a container with patience. -/
def Removal.hazards : List Hazard := [.span Removal.patience.nanos]

/-- Prepares the container and the time limit of a job. -/
def Job.hazards (job : Job) : List Hazard := .span job.timeLimit.nanos :: job.spec.hazards

/-- An execution is told something: more output, or what it ends with. -/
def Execution.hazards (now : Instant) (cancelled : Bool) (x : Execution) (sig : Signal) :
    List Hazard :=
  (match x.point, sig with
    | .collecting _ stdout _, .reply (.output (.ok (.stdout bytes))) => stdout.hazards bytes
    | .collecting _ _ stderr, .reply (.output (.ok (.stderr bytes))) => stderr.hazards bytes
    | _, _ => []) ++
  match x.step now cancelled sig with
    | some (.finished (.ok o)) => o.hazards
    | some (.going _) => [.span pause.nanos]
    | _ => []

/-- A run is told something. With the answer to its upload the clock is started, if it can show the
end of the time limit. -/
def Run.hazards (now : Instant) (r : Run) (sig : Signal) : List Hazard :=
  match r.stage with
  | .uploading job _ _ =>
    .span job.timeLimit.nanos :: match now.after? job.timeLimit with
      | some _ => [.moment (now * nanosPerMilli + job.timeLimit.nanos)]
      | none => []
  | .executing x => x.hazards now r.cancelled sig
  | _ => []

/-- An upkeep task is told something. -/
def Upkeep.hazards (settings : PoolSettings) (u : Upkeep) (pool : WarmPool) : List Hazard :=
  settings.hazards ++ match u.point with
    | .checking => u.spec.hazards
    | .storing id => pool.hazards settings.size.toNat id
    | _ => []

/-- The start of a supervisor: the places of each pool are reserved. -/
def Config.hazards (c : Config) : List Hazard :=
  (Supervisor.keepers c).flatMap fun _ => .reserve c.pool.size.toNat :: c.pool.hazards

namespace Supervisor

/-- What an event may make a supervisor carry out. To drop, cancel, take and drain has no hazards,
and to remove only waits. -/
def hazards (s : Supervisor) : Event → List Hazard
  | .run request _ => (s.config.job? request).elim [] Job.hazards
  | .provision spec => Removal.hazards ++ spec.hazards
  | .push language id => (s.pool? language).elim [] (WarmPool.hazards s.config.pool.size.toNat id)
  | .signal k sig => Removal.hazards ++ match s.tasks[k]? with
    | some (.run r) => r.hazards s.now sig
    | some (.upkeep u) => (s.pool? u.language).elim [] (u.hazards s.config.pool)
    | _ => []
  | _ => Removal.hazards

end Supervisor

/-! ### The places of the pools -/

namespace Supervisor

/-- Every pool has as many places as were reserved for it and holds no more. -/
def Roomy (n : ℕ) (s : Supervisor) : Prop := ∀ p ∈ s.pools, p.capacity = n ∧ p.size ≤ n

/-- **No pool ever holds more than was reserved for it.** -/
theorem roomy_after {c : Config} {epoch : ℕ} {es : List Event} {s₀ s : Supervisor}
    (start : start? c epoch = some s₀) (after : s₀.after? es = some s) :
    Roomy c.pool.size.toNat s := by
  refine after?_preserves (P := Roomy c.pool.size.toNat) (fun hs hstep => ?_) ?_ after
  · refine (moves_of_step hstep).2.handles.forall hs fun pool op h => ?_
    obtain ⟨hcapacity, hsize⟩ := h
    refine ⟨(WarmPool.capacity_perform pool op).trans hcapacity, ?_⟩
    exact hcapacity ▸ WarmPool.size_perform_le op (hcapacity.symm ▸ hsize)
  · rw [start?_eq_some start]
    intro p hp
    obtain ⟨u, -, rfl⟩ := List.mem_map.1 hp
    exact ⟨rfl, Nat.zero_le _⟩

end Supervisor

/-! ### Safe operations -/

theorem Hazard.safe_elim {α : Type} {o : Option α} {f : α → List Hazard}
    (h : ∀ a, o = some a → ∀ x ∈ f a, x.Safe) : ∀ x ∈ o.elim [] f, x.Safe := by
  cases o with
  | none => simp
  | some a => exact h a rfl

theorem Duration.span_safe (d : Duration) : (Hazard.span d.nanos).Safe := Nat.le_pred_of_lt d.fits

theorem ContainerSpec.hazards_safe (spec : ContainerSpec) : ∀ h ∈ spec.hazards, h.Safe := by
  have hle : Daemon.hostMemory spec ≤ Daemon.maxMemory := min_le_right _ _
  simp only [Daemon.maxMemory, bound63] at hle
  simp only [hazards, List.forall_mem_singleton, Hazard.Safe, isInt64, decide_eq_true_eq]
  omega

theorem PoolSettings.hazards_safe (settings : PoolSettings) : ∀ h ∈ settings.hazards, h.Safe := by
  simp only [hazards, List.forall_mem_cons]
  exact ⟨Duration.span_safe _, Duration.span_safe _, List.forall_mem_nil _⟩

theorem Removal.hazards_safe : ∀ h ∈ hazards, h.Safe := by
  simp only [hazards, List.forall_mem_singleton]
  exact Duration.span_safe _

theorem Job.hazards_safe (job : Job) : ∀ h ∈ job.hazards, h.Safe :=
  List.forall_mem_cons.2 ⟨Duration.span_safe _, job.spec.hazards_safe⟩

/-- A pool that takes a container in has a free place among those that were reserved for it. -/
theorem WarmPool.hazards_safe {reserved : ℕ} {pool : WarmPool} (h : pool.capacity = reserved)
    (id : ContainerId) : ∀ h ∈ pool.hazards reserved id, h.Safe := by
  unfold hazards
  cases hpush : pool.push id with
  | none => simp
  | some pool' =>
    have hroom : pool.size < pool.capacity := by
      by_contra hfull
      simp [push, isFull, Nat.le_of_not_lt hfull] at hpush
    simpa [Hazard.Safe, ← h] using hroom

theorem Capture.hazards_safe (c : Capture) (chunk : Bytes) : ∀ h ∈ c.hazards chunk, h.Safe := by
  simp [hazards, Hazard.Safe]

/-- An execution ends with the exit code of a time limit, or with one that was found to fit. -/
theorem Execution.isInt32_of_step {now : Instant} {cancelled : Bool} {x : Execution} {sig : Signal}
    {o : Outcome} (h : x.step now cancelled sig = some (.finished (.ok o))) :
    isInt32 o.exitCode = true := by
  cases hpoint : x.point with
  | opening =>
    rcases step_opening hpoint h with ⟨_, _, h⟩ | ⟨_, _, _, h⟩ | ⟨_, _, _, h⟩ <;> cases h
  | collecting exec stdout stderr =>
    rcases step_collecting hpoint h with ⟨_, _, h⟩ | ⟨_, _, _, h⟩ | ⟨_, _, _, h⟩ | ⟨_, _, h⟩ |
      ⟨_, _, _, h⟩
    case inr.inr.inr.inr =>
      cases h
      rfl
    all_goals cases h
  | inspecting ending attempt =>
    obtain ⟨answer, -, h⟩ := step_inspecting hpoint h
    unfold inspected at h
    split at h
    · cases h
    · split_ifs at h with hnarrow
      · cases h
        exact hnarrow
      · cases h
    · split_ifs at h
      cases h
  | pausing ending attempt wake =>
    obtain ⟨_, _, h⟩ := step_pausing hpoint h
    cases h

theorem Execution.hazards_safe (now : Instant) (cancelled : Bool) (x : Execution) (sig : Signal) :
    ∀ h ∈ x.hazards now cancelled sig, h.Safe := by
  intro h hh
  rcases List.mem_append.1 hh with hh | hh
  · split at hh
    · exact Capture.hazards_safe _ _ h hh
    · exact Capture.hazards_safe _ _ h hh
    · cases hh
  · split at hh
    · next o hstep =>
      rcases List.mem_cons.1 hh with rfl | hh
      · exact isInt32_of_step hstep
      · obtain rfl := List.mem_singleton.1 hh
        exact Duration.span_safe _
    · obtain rfl := List.mem_singleton.1 hh
      exact Duration.span_safe _
    · cases hh

theorem Run.hazards_safe (now : Instant) (r : Run) (sig : Signal) :
    ∀ h ∈ r.hazards now sig, h.Safe := by
  unfold hazards
  split
  · refine List.forall_mem_cons.2 ⟨Duration.span_safe _, ?_⟩
    split
    · next d hd =>
      rw [List.forall_mem_singleton]
      exact (Instant.after?_eq_some hd).2
    · simp
  · exact Execution.hazards_safe _ _ _ _
  · simp

theorem Upkeep.hazards_safe {settings : PoolSettings} {pool : WarmPool} (u : Upkeep)
    (h : pool.capacity = settings.size.toNat) : ∀ h ∈ u.hazards settings pool, h.Safe := by
  intro hazard hh
  rcases List.mem_append.1 hh with hh | hh
  · exact settings.hazards_safe hazard hh
  · split at hh
    · exact u.spec.hazards_safe hazard hh
    · exact WarmPool.hazards_safe h _ hazard hh
    · cases hh

/-! ### The start -/

namespace Supervisor

variable {s s₀ : Supervisor} {e : Event} {es : List Event} {c : Config} {epoch : ℕ}

/-- There is an upkeep task for each language, if pools are wanted. -/
theorem keepers_eq_nil : keepers c = [] ↔ c.pool.size = 0 ∨ c.languages = [] := by
  unfold keepers
  split_ifs with hsize
  · simp [hsize]
  · cases hl : c.languages with
    | nil => simp [Config.ids, hl]
    | cons l ls =>
      have hid : l.1 ∈ c.ids := by simp [Config.ids, hl]
      have hprofile : c.profile? l.1 = some l.2 := by
        rw [Config.profile?, hl]
        exact List.lookup_cons_self
      have hkeeper : Upkeep.begin c.pool 0 l.1 (l.2.containerSpec none) ∈ c.ids.filterMap fun id =>
          (c.profile? id).map fun p => Upkeep.begin c.pool 0 id (p.containerSpec none) :=
        List.mem_filterMap.2 ⟨l.1, hid, by rw [hprofile]; rfl⟩
      simp only [hsize, List.cons_ne_nil, or_self, iff_false]
      exact List.ne_nil_of_mem hkeeper

/-- The start is safe but for the places of the pools. -/
theorem start_safe : (∀ h ∈ c.hazards, h.Safe) ↔
    keepers c = [] ∨ WarmPool.Reservable c.pool.size.toNat := by
  constructor
  · intro hsafe
    by_cases hnone : keepers c = []
    · exact Or.inl hnone
    · obtain ⟨u, hu⟩ := List.exists_mem_of_ne_nil _ hnone
      exact Or.inr (hsafe (.reserve _) (List.mem_flatMap.2 ⟨u, hu, List.mem_cons_self⟩))
  · intro hroom h hh
    obtain ⟨u, hu, hh⟩ := List.mem_flatMap.1 hh
    rcases List.mem_cons.1 hh with rfl | hh
    · exact hroom.resolve_left (List.ne_nil_of_mem hu)
    · exact c.pool.hazards_safe h hh

theorem start?_eq_none : start? c epoch = none ↔
    keepers c ≠ [] ∧ ¬ WarmPool.Reservable c.pool.size.toNat := by
  simp [start?]

/-- **Every event is safe** in every state that a supervisor can come to. -/
theorem event_safe (start : start? c epoch = some s₀) (after : s₀.after? es = some s) (e : Event) :
    ∀ h ∈ s.hazards e, h.Safe := by
  have hconfig := (indexed_after start after).2
  have hpool : ∀ {language pool}, s.pool? language = some pool →
      pool.capacity = s.config.pool.size.toNat := by
    intro language pool h
    rw [hconfig]
    exact (roomy_after start after pool (List.mem_of_find?_eq_some h)).1
  cases e with
  | run request cancelled => exact Hazard.safe_elim fun job _ => job.hazards_safe
  | provision spec => exact List.forall_mem_append.2 ⟨Removal.hazards_safe, spec.hazards_safe⟩
  | push language id => exact Hazard.safe_elim fun pool h => WarmPool.hazards_safe (hpool h) id
  | signal k sig =>
    refine List.forall_mem_append.2 ⟨Removal.hazards_safe, ?_⟩
    split
    · exact Run.hazards_safe _ _ _
    · exact Hazard.safe_elim fun pool h => Upkeep.hazards_safe _ (hpool h)
    · simp
  | _ => exact Removal.hazards_safe

/-- **Where a supervisor may stop.** It cannot be started if and only if there is an operation at
its start that is not safe, and then it is the reservation of the places of its pools: pools are
wanted, there is a language, and the places take more bytes than can be reserved at once. That does
not depend on anything else that is configured. Once it is started, no pool ever holds more than was
reserved for it, and whatever happens, to whatever request, involves safe operations only. -/
theorem stops_only_at_start (c : Config) (epoch : ℕ) :
    (start? c epoch = none ↔ ∃ h ∈ c.hazards, ¬ h.Safe) ∧
    (start? c epoch = none ↔ c.pool.size ≠ 0 ∧ c.languages ≠ [] ∧
      WarmPool.maxReservation < c.pool.size.toNat * WarmPool.placeSize) ∧
    ∀ s₀ es s, start? c epoch = some s₀ → s₀.after? es = some s →
      (∀ p ∈ s.pools, p.size ≤ c.pool.size.toNat) ∧ ∀ e, ∀ h ∈ s.hazards e, h.Safe := by
  have hstart : (∃ h ∈ c.hazards, ¬ h.Safe) ↔
      keepers c ≠ [] ∧ ¬ WarmPool.Reservable c.pool.size.toNat := by
    rw [← not_or, ← start_safe]
    simp only [not_forall, exists_prop]
  refine ⟨start?_eq_none.trans hstart.symm, ?_, fun s₀ es s start after => ⟨fun p hp => ?_, ?_⟩⟩
  · rw [start?_eq_none, Ne, keepers_eq_nil, not_or, and_assoc, WarmPool.Reservable, Nat.not_le]
  · exact (roomy_after start after p hp).2
  · exact event_safe start after

/-- A configuration with one place too many. -/
def tooManyPlaces : Config := { Config.small with pool := { size := 384307168202282326 } }

/-- It is accepted, but it cannot be started; with a single place it can. -/
theorem stops_only_at_start_tooManyPlaces : tooManyPlaces.firstDefect = none ∧
    start? tooManyPlaces 0 = none ∧ (∃ h ∈ tooManyPlaces.hazards, ¬ h.Safe) ∧
    ∃ s₀ s, start? Config.small 0 = some s₀ ∧ s₀.after? oneLife = some s ∧
      ∀ e, ∀ h ∈ s.hazards e, h.Safe := by
  obtain ⟨hsafe, hroom, -⟩ := stops_only_at_start tooManyPlaces 0
  have hnone : start? tooManyPlaces 0 = none :=
    hroom.2 ⟨by decide, by simp [tooManyPlaces, Config.small], by decide⟩
  obtain ⟨s₀, s, start, after⟩ : ∃ s₀ s, start? Config.small 0 = some s₀ ∧
      s₀.after? oneLife = some s := ⟨_, _, rfl, rfl⟩
  obtain ⟨-, -, hlater⟩ := stops_only_at_start Config.small 0
  exact ⟨by decide, hnone, hsafe.1 hnone, s₀, s, start, after, (hlater s₀ _ s start after).2⟩

end Supervisor

end Isolate
