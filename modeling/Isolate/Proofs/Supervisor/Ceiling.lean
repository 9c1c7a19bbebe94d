import Isolate.Daemon.Request
import Isolate.Proofs.Supervisor.Submission

/-!
# Memory ceilings

A limit of zero stands for no limit at all: in a request and in a profile it is passed over, and the
daemon would take it at its word. What the daemon is told is never zero.

* `Profile.Allows`, `allows_iff`: the rule for the memory of a container, and that it is the limit
  by which an idle container is taken or left;
* `Daemon.HttpRequest.memory?`, `memory?_create`: the limit that the daemon is told;
* `Task.Confined`, `Confined.step`: whatever happens, no task asks for a container other than those
  of a profile;
* `memory_of_container`: every container has a memory ceiling.
-/

namespace Isolate

/-! ### The rule -/

theorem positive?_eq_some {limit : Option UInt64} {n : UInt64} :
    positive? limit = some n ↔ limit = some n ∧ 0 < n := by
  simp [positive?, Option.filter_eq_some_iff]

theorem positive?_eq_none {limit : Option UInt64} :
    positive? limit = none ↔ ∀ n ∈ limit, n = 0 := by
  simp [positive?, Option.filter_eq_none_iff]

namespace Profile

/-- The rule for the memory in bytes that a container may use: that of the request if it is
positive, else that of the profile if that is positive, else 100 MiB. -/
inductive Allows (p : Profile) (override : Option UInt64) : ℕ → Prop
  | request {n : UInt64} (given : override = some n) (positive : 0 < n) : Allows p override n.toNat
  | profile {n : UInt64} (unset : ∀ n ∈ override, n = 0) (own : p.memory = some n)
      (positive : 0 < n) : Allows p override n.toNat
  | standard (unset : ∀ n ∈ override, n = 0) (without : ∀ n ∈ p.memory, n = 0) :
      Allows p override (100 * 1024 * 1024)

variable {p : Profile} {override : Option UInt64} {n : ℕ}

theorem Allows.pos (h : p.Allows override n) : 0 < n := by
  cases h with
  | request _ positive => exact UInt64.lt_iff_toNat_lt.1 positive
  | profile _ _ positive => exact UInt64.lt_iff_toNat_lt.1 positive
  | standard _ _ => norm_num

/-- What the rule allows is the limit that is chosen. -/
theorem Allows.eq (h : p.Allows override n) : n = (p.memoryLimit override).toNat := by
  cases h with
  | request given positive =>
    rw [memoryLimit, positive?_eq_some.2 ⟨given, positive⟩, Option.getD_some]
  | profile unset own positive =>
    rw [memoryLimit, positive?_eq_none.2 unset, Option.getD_none, ownMemoryLimit,
      positive?_eq_some.2 ⟨own, positive⟩, Option.getD_some]
  | standard unset without =>
    rw [memoryLimit, positive?_eq_none.2 unset, Option.getD_none, ownMemoryLimit,
      positive?_eq_none.2 without, Option.getD_none]
    rfl

theorem allows_memoryLimit (p : Profile) (override : Option UInt64) :
    p.Allows override (p.memoryLimit override).toNat := by
  cases hover : positive? override with
  | some n =>
    obtain ⟨given, positive⟩ := positive?_eq_some.1 hover
    have h : p.Allows override n.toNat := .request given positive
    exact h.eq ▸ h
  | none =>
    have unset := positive?_eq_none.1 hover
    cases hown : positive? p.memory with
    | some n =>
      obtain ⟨own, positive⟩ := positive?_eq_some.1 hown
      have h : p.Allows override n.toNat := .profile unset own positive
      exact h.eq ▸ h
    | none =>
      have h : p.Allows override (100 * 1024 * 1024) := .standard unset (positive?_eq_none.1 hown)
      exact h.eq ▸ h

/-- **The rule allows the limit that is chosen, and no other.** -/
theorem allows_iff : p.Allows override n ↔ n = (p.memoryLimit override).toNat :=
  ⟨Allows.eq, fun h => h ▸ allows_memoryLimit p override⟩

end Profile

/-- An idle container is taken if the limit of the job is the one that idle containers are created
with. -/
theorem Job.takesIdle_iff {job : Job} {n : ℕ} (h : job.profile.Allows job.request.memory n) :
    job.takesIdle = true ↔ job.profile.Allows none n := by
  have hown : job.profile.memoryLimit none = job.profile.ownMemoryLimit := rfl
  rw [Profile.allows_iff.1 h, Profile.allows_iff, hown, UInt64.toNat_inj]
  exact beq_iff_eq

/-! ### What the daemon is told -/

namespace Daemon

/-- The memory limit in a request for a container. -/
def HttpRequest.memory? (r : HttpRequest) : Option ℤ :=
  match r.body with
  | .json document =>
    match (document.get? "HostConfig").bind (Data.get? "Memory") with
    | some (.int n) => some n
    | _ => none
  | _ => none

theorem memory?_create (spec : ContainerSpec) :
    (requestOf (.create spec)).memory? = some (hostMemory spec : ℤ) := by
  have hhost : (createBody spec).get? "HostConfig" = some (hostConfig spec) := by
    simp [createBody, Data.get?, Data.lastUnder]
  have hmemory : (hostConfig spec).get? "Memory" = some (.int (hostMemory spec)) := by
    simp [hostConfig, Data.get?, Data.lastUnder]
  simp only [requestOf, HttpRequest.to, HttpRequest.memory?, hhost, Option.bind_some, hmemory]

/-- The container of a profile is created with the limit that the rule allows, as far as the daemon
can be told of it. -/
theorem hostMemory_containerSpec {p : Profile} {override : Option UInt64} {n : ℕ}
    (h : p.Allows override n) :
    hostMemory (p.containerSpec override) = min n (2 ^ 63 - 1) ∧
      1 ≤ hostMemory (p.containerSpec override) ∧
      hostMemory (p.containerSpec override) ≤ 2 ^ 63 - 1 := by
  have heq : hostMemory (p.containerSpec override) = min n (2 ^ 63 - 1) := by
    rw [h.eq]
    rfl
  have := h.pos
  rw [heq]
  refine ⟨rfl, ?_, min_le_right _ _⟩
  omega

end Daemon

/-! ### Whatever happens -/

/-- The container of a profile, with or without a limit of a request. -/
def ContainerSpec.Hardened (spec : ContainerSpec) : Prop :=
  ∃ (p : Profile) (override : Option UInt64), spec = p.containerSpec override

/-- The task asks for containers of profiles only, and will do so if it provides for a pool. -/
structure Task.Confined (t : Task) : Prop where
  asks : ∀ {spec}, t.call? = some (.create spec) → spec.Hardened
  provides : ∀ {u}, t = .upkeep u → u.spec.Hardened

/-- A task that asks for no container and does not provide for a pool. -/
theorem Task.confined_of_ne {t : Task} (asks : ∀ spec, t.call? ≠ some (.create spec))
    (other : ∀ u, t ≠ .upkeep u) : t.Confined :=
  ⟨fun h => absurd h (asks _), fun h => absurd h (other _)⟩

theorem Closing.call?_ne (c : Closing) (spec : ContainerSpec) :
    (Task.closing c).call? ≠ some (.create spec) := by
  cases c <;> rintro ⟨⟩

theorem Run.Stage.call?_begin {now stamp : ℕ} {job : Job} {idle : Option ContainerId}
    {spec : ContainerSpec} (h : (Run.begin now stamp job idle).call? = some (.create spec)) :
    spec = job.spec := by
  cases idle with
  | none => exact (Call.create.inj (Option.some.inj h)).symm
  | some id =>
    simp only [Run.begin, Run.acquired] at h
    split at h <;> cases h

namespace Supervisor

variable {s s' s₀ : Supervisor} {c : Config} {e : Event} {es : List Event} {k : ℕ} {sig : Signal}

/-- A task that is told something goes on as one that is confined. -/
theorem confined_of_stepTask {t : Task} (ht : t.Confined) (h : s.stepTask k t sig = some s') :
    ∃ t', s'.tasks = s.tasks.set k t' ∧ t'.Confined := by
  have quiet : ∀ c : Closing, (Task.closing c).Confined := fun c =>
    Task.confined_of_ne c.call?_ne (by rintro u ⟨⟩)
  cases t with
  | run r =>
    obtain ⟨r', hr, rfl⟩ := Option.map_eq_some_iff.1 h
    exact ⟨.run r', by rw [goOn_eq], Task.confined_of_ne (Run.call_of_step hr) (by rintro u ⟨⟩)⟩
  | upkeep u =>
    simp only [stepTask] at h
    split at h
    · obtain ⟨⟨u', pool'⟩, hu, rfl⟩ := Option.map_eq_some_iff.1 h
      have hspec : u'.spec.Hardened := Upkeep.spec_step hu ▸ ht.provides rfl
      refine ⟨.upkeep u', by rw [goOn_eq]; rfl, fun hc => ?_, by rintro _ ⟨⟩; exact hspec⟩
      rw [Upkeep.call_of_step hu hc]
      exact ht.provides rfl
    · cases h
  | closing c =>
    cases c with
    | signalling =>
      obtain ⟨_, rfl⟩ := stepClosing_signalling h
      exact ⟨_, by rw [goOn_eq], quiet _⟩
    | gathering =>
      obtain ⟨_, rfl⟩ := stepClosing_gathering h
      exact ⟨_, by rw [goOn_eq], quiet _⟩
    | joining tasks =>
      obtain ⟨_, ⟨_, rfl⟩ | ⟨_, _, _, _, rfl⟩⟩ := stepClosing_joining h
      · exact ⟨_, by rw [goOn_eq], quiet _⟩
      · exact ⟨_, by rw [goOn_eq], quiet _⟩
    | sweeping languages =>
      obtain ⟨_, ⟨_, rfl⟩ | ⟨_, _, _, ⟨_, _, rfl⟩ | ⟨_, rfl⟩⟩⟩ := stepClosing_sweeping h
      · exact ⟨_, by rw [goOn_eq], quiet _⟩
      · exact ⟨_, by rw [goOn_eq]; rfl, quiet _⟩
      · exact ⟨_, by rw [goOn_eq], quiet _⟩
    | removing removal rest languages =>
      obtain ⟨_, rfl⟩ := stepClosing_removing h
      exact ⟨_, by rw [goOn_eq], quiet _⟩
    | ended => simp [stepTask, stepClosing_ended] at h
  | removal r =>
    simp only [stepTask] at h
    split at h <;> cases h
    · exact ⟨_, by rw [goOn_eq], Task.confined_of_ne (by rintro _ ⟨⟩) (by rintro u ⟨⟩)⟩
    · exact ⟨_, by rw [goOn_eq], Task.confined_of_ne (by rintro _ ⟨⟩) (by rintro u ⟨⟩)⟩
  | provision p =>
    simp only [stepTask] at h
    split at h <;> cases h
    · rename_i p' hp
      refine ⟨_, by rw [goOn_eq], Task.confined_of_ne (fun spec hc => ?_) (by rintro u ⟨⟩)⟩
      exact p.call_of_going hp spec (Option.some.inj hc)
    · exact ⟨_, by rw [goOn_eq], Task.confined_of_ne (by rintro _ ⟨⟩) (by rintro u ⟨⟩)⟩
  | _ => cases h

/-- All tasks are confined, and so were all calls. -/
structure Confined (s : Supervisor) : Prop where
  tasks : ∀ t ∈ s.tasks, t.Confined
  calls : ∀ {k spec}, (k, .create spec) ∈ s.calls → spec.Hardened

theorem confined_start {epoch : ℕ} (start : start? c epoch = some s) : s.Confined := by
  rw [start?_eq_some start]
  refine ⟨fun t ht => ?_, fun h => by cases h⟩
  obtain ⟨u, hu, rfl⟩ := List.mem_map.1 ht
  obtain ⟨p, _, hbegin⟩ := mem_keepers hu
  have hspec : u.spec = p.containerSpec none := by
    rw [hbegin]
    rfl
  refine ⟨fun hc => ?_, by rintro _ ⟨⟩; exact ⟨p, none, hspec⟩⟩
  rw [hbegin] at hc
  cases hc

/-- A run asks for the container of its job. -/
theorem confined_run {job : Job} {idle : Option ContainerId} {now stamp : ℕ} {cancelled : Bool} :
    (Task.run ⟨cancelled, Run.begin now stamp job idle⟩).Confined :=
  ⟨fun h => ⟨job.profile, job.request.memory, Run.Stage.call?_begin h⟩, by rintro u ⟨⟩⟩

/-- The tasks of a confined supervisor are confined after any event by which callers ask for
containers of profiles only. -/
theorem confined_tasks (hs : ∀ t ∈ s.tasks, t.Confined)
    (hand : ∀ spec, e = .provision spec → spec.Hardened) (h : s.step e = some s') :
    ∀ t ∈ s'.tasks, t.Confined := by
  have append : ∀ {s₁ : Supervisor} {t : Task}, (∀ t ∈ s₁.tasks, t.Confined) → t.Confined →
      ∀ t' ∈ (s₁.spawn t).tasks, t'.Confined := by
    intro s₁ t hs₁ ht t' ht'
    rw [spawn_eq] at ht'
    rcases List.mem_append.1 ht' with ht' | ht'
    · exact hs₁ t' ht'
    · exact List.mem_singleton.1 ht' ▸ ht
  have replace : ∀ {k : ℕ} {t : Task}, t.Confined → ∀ t' ∈ s.tasks.set k t, t'.Confined := by
    intro k t ht t' ht'
    rcases List.mem_or_eq_of_mem_set ht' with ht' | rfl
    · exact hs t' ht'
    · exact ht
  have begun : ∀ result cancelled, (Task.run ⟨cancelled, .done result⟩).Confined :=
    fun _ _ => Task.confined_of_ne (by rintro _ ⟨⟩) (by rintro u ⟨⟩)
  have removal : ∀ r, (Task.removal r).Confined :=
    fun _ => Task.confined_of_ne (by rintro _ ⟨⟩) (by rintro u ⟨⟩)
  have dropped : ∀ k, ∀ t' ∈ (s.goOn k .over).tasks, t'.Confined := by
    intro k
    rw [goOn_eq]
    exact replace (Task.confined_of_ne (by rintro _ ⟨⟩) (by rintro u ⟨⟩))
  cases e with
  | run request cancelled =>
    cases h
    unfold beginRun
    split
    · exact append hs (begun _ _)
    · split_ifs
      · have tasks := (Frame.takeIdle s request.language).tasks
        exact append (fun t ht => hs t (tasks ▸ ht)) confined_run
      · exact append hs confined_run
  | close =>
    cases h
    exact append hs (Task.confined_of_ne (Closing.call?_ne _) (by rintro u ⟨⟩))
  | provision spec =>
    cases h
    refine append hs ⟨fun hc => ?_, by rintro u ⟨⟩⟩
    cases hc
    exact hand spec rfl
  | remove id =>
    cases h
    exact append hs (removal _)
  | abandon =>
    cases h
    exact hs
  | cancel k =>
    simp only [step] at h
    split at h <;> cases h
    rename_i r found
    exact replace ⟨(hs _ (List.mem_of_getElem? found)).asks, by rintro u ⟨⟩⟩
  | drop k =>
    simp only [step] at h
    split at h <;> cases h
    · rename_i r found
      unfold dropRun
      cases r.stage.leased? with
      | none => exact dropped k
      | some id => exact append (dropped k) (removal _)
    · exact dropped k
  | signal k sig =>
    simp only [step] at h
    split at h
    · rename_i t found
      obtain ⟨t', tasks, ht'⟩ := confined_of_stepTask (hs t (List.mem_of_getElem? found)) h
      rw [tasks]
      exact replace ht'
    · cases h
  | advance moment =>
    simp only [step] at h
    split_ifs at h
    cases h
    exact hs
  | push language id =>
    simp only [step] at h
    split at h
    · obtain ⟨pool, _, rfl⟩ := Option.map_eq_some_iff.1 h
      exact hs
    · cases h
  | take language =>
    simp only [step] at h
    split at h <;> cases h
    exact hs
  | drain language =>
    simp only [step] at h
    split at h <;> cases h
    exact hs

/-- **No event leads to a call for another container.** -/
theorem Confined.step (hs : s.Confined) (hand : ∀ spec, e = .provision spec → spec.Hardened)
    (h : s.step e = some s') : s'.Confined := by
  have tasks := confined_tasks hs.tasks hand h
  refine ⟨tasks, fun {k spec} hcall => ?_⟩
  rcases calls_of_step h with hsame | ⟨j, t, call, hcons, found, made⟩
  · exact hs.calls (hsame ▸ hcall)
  · rw [hcons] at hcall
    rcases List.mem_cons.1 hcall with heq | hcall
    · cases heq
      exact (tasks t (List.mem_of_getElem? found)).asks made
    · exact hs.calls hcall

theorem Confined.after (hs : s.Confined) (hand : ∀ spec, .provision spec ∈ es → spec.Hardened)
    (after : s.after? es = some s') : s'.Confined := by
  induction es generalizing s with
  | nil =>
    cases after
    exact hs
  | cons e es ih =>
    rw [after?_cons] at after
    obtain ⟨s₁, hstep, hrest⟩ := Option.bind_eq_some_iff.1 after
    refine ih (hs.step (fun spec he => hand spec (he ▸ List.mem_cons_self)) hstep) ?_ hrest
    exact fun spec h => hand spec (List.mem_cons_of_mem _ h)

/-! ### The ceiling -/

/-- **Every container has a memory ceiling.** For every profile and every limit of a request, the
daemon is told the one limit that the rule allows, or the greatest that it can be told if that is
less; it is never told zero. An idle container is taken if and only if the limit without one of the
request is the same. Whatever happens in a supervisor whose callers ask for containers of profiles
only, no other containers are ever asked for. -/
theorem memory_of_container :
    (∀ (p : Profile) (override : Option UInt64), ∃ limit : ℕ,
      (∀ n, p.Allows override n ↔ n = limit) ∧
      (∃ m : ℤ, (Daemon.requestOf (.create (p.containerSpec override))).memory? = some m ∧
        m = min (limit : ℤ) (2 ^ 63 - 1) ∧ 1 ≤ m ∧ m ≤ 2 ^ 63 - 1) ∧
      ∀ job : Job, job.profile = p → job.request.memory = override →
        job.spec = p.containerSpec override ∧ (job.takesIdle = true ↔ p.Allows none limit)) ∧
    ∀ c epoch s₀ es s, start? c epoch = some s₀ →
      (∀ spec, .provision spec ∈ es → spec.Hardened) → s₀.after? es = some s →
      ∀ k spec, (k, .create spec) ∈ s.calls → spec.Hardened ∧
        ∃ m : ℤ, (Daemon.requestOf (.create spec)).memory? = some m ∧ 1 ≤ m ∧ m ≤ 2 ^ 63 - 1 := by
  have told : ∀ (p : Profile) (override : Option UInt64) (n : ℕ), p.Allows override n →
      ∃ m : ℤ, (Daemon.requestOf (.create (p.containerSpec override))).memory? = some m ∧
        m = min (n : ℤ) (2 ^ 63 - 1) ∧ 1 ≤ m ∧ m ≤ 2 ^ 63 - 1 := by
    intro p override n hn
    obtain ⟨heq, hlow, hhigh⟩ := Daemon.hostMemory_containerSpec hn
    exact ⟨_, Daemon.memory?_create _, by omega, by omega, by omega⟩
  constructor
  · intro p override
    have hlimit := p.allows_memoryLimit override
    refine ⟨_, fun n => Profile.allows_iff, told p override _ hlimit, ?_⟩
    rintro job rfl rfl
    exact ⟨rfl, Job.takesIdle_iff hlimit⟩
  · intro c epoch s₀ es s start hand after k spec hcall
    obtain ⟨p, override, rfl⟩ := ((confined_start start).after hand after).calls hcall
    obtain ⟨m, hm, -, hlow, hhigh⟩ := told p override _ (p.allows_memoryLimit override)
    exact ⟨⟨p, override, rfl⟩, m, hm, hlow, hhigh⟩

/-- A request for more memory than the daemon can be told of. -/
def greedyRequest : Request := ⟨"sh", "true", none, none, some 18446744073709551615⟩

/-- An upkeep task asks for a container for its pool, and a run for one of its own. -/
def greedyRun : List Event :=
  [.advance 100, .signal 0 .timer, .signal 0 .proceed, .run greedyRequest false]

theorem memory_of_container_greedyRun : ∃ s₀ s job own pooled m,
    start? .small 0 = some s₀ ∧ Config.small.job? greedyRequest = some job ∧
    s₀.after? greedyRun = some s ∧ s.calls = [(1, .create own), (0, .create pooled)] ∧
    own = job.profile.containerSpec job.request.memory ∧ job.takesIdle = false ∧
    (Daemon.requestOf (.create own)).memory? = some (2 ^ 63 - 1) ∧
    (Daemon.requestOf (.create pooled)).memory? = some m ∧ 1 ≤ m ∧ m ≤ 2 ^ 63 - 1 := by
  have hs : ∃ s₀ s job own pooled, start? .small 0 = some s₀ ∧
      Config.small.job? greedyRequest = some job ∧ s₀.after? greedyRun = some s ∧
      s.calls = [(1, .create own), (0, .create pooled)] ∧
      own = job.profile.containerSpec job.request.memory ∧
      job.request.memory = some 18446744073709551615 ∧ job.profile.memory = none :=
    ⟨_, _, _, _, _, rfl, rfl, rfl, rfl, rfl, rfl, rfl⟩
  obtain ⟨s₀, s, job, own, pooled, start, known, after, calls, hown, hmemory, hprofile⟩ := hs
  obtain ⟨each, all⟩ := memory_of_container
  obtain ⟨limit, rule, ⟨m', told', heq, -, -⟩, hjob⟩ := each job.profile job.request.memory
  obtain ⟨-, htake⟩ := hjob job rfl rfl
  obtain ⟨-, m, told, hlow, hhigh⟩ := all .small 0 s₀ greedyRun s start
    (by simp [greedyRun]) after 0 pooled (by simp [calls])
  have hlimit : 18446744073709551615 = limit :=
    (rule _).1 (.request (n := 18446744073709551615) hmemory (by decide))
  have hidle : ¬ job.profile.Allows none limit := by
    have hstandard : job.profile.Allows none (100 * 1024 * 1024) :=
      .standard (by simp) (by simp [hprofile])
    rw [Profile.allows_iff, ← Profile.allows_iff.1 hstandard]
    omega
  refine ⟨s₀, s, job, own, pooled, m, start, known, after, calls, hown, ?_, ?_, told, hlow, hhigh⟩
  · exact Bool.eq_false_iff.2 (mt htake.1 hidle)
  · rw [hown, told', heq, ← hlimit]
    rfl

end Supervisor

end Isolate
