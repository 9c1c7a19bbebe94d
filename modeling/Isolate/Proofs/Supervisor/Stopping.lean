import Isolate.Proofs.Supervisor.Pacing

/-!
# After the sign to stop

Once the sign to stop has been given, by a request or because the pools are given up, nothing comes
into a pool any more but what its upkeep task was about to store at that moment. What is provided
later is removed, and so is what the task finds in its pool when it leaves. A task that has begun to
wait for its next look before the sign may still look, as both may come at the same moment; after
that it does not wait for another one.

* `PoolTurn`, `poolTurn_of_step`: what an event does to an upkeep task and its pool;
* `settled_after`: what may still come into a pool;
* `Upkeep.Point.Spent`, `once_after_sign`: how many attempts begin after the sign;
* `leaves_at_notice`: a task that waits can be told of the sign;
* `removed_after_sign`: what becomes of a container that is provided after the sign;
* `Leaves`, `Awaits`, `Disposes`, `disposed_after_leaving`: what becomes of the containers that are
  idle when the task leaves;
* `emptied_after`, `ended_after`: what comes after the end of the task;
* `winds_down`: all of this together.
-/

namespace Isolate

/-! ### One upkeep task -/

namespace Upkeep.Point

variable {settings : PoolSettings} {spec : ContainerSpec} {now : Instant} {pool pool' : WarmPool}
  {point point' : Point} {sig : Signal}

/-- The container that the task has decided to store. -/
def settled : Point → List ContainerId
  | .storing id => [id]
  | _ => []

end Upkeep.Point

namespace Supervisor

variable {s₀ s s' s₁ : Supervisor} {c : Config} {epoch i k : ℕ} {es more : List Event} {e : Event}
  {u u' : Upkeep} {p p' : WarmPool} {id : ContainerId} {sig : Signal}

/-! ### An upkeep task and its pool -/

/-- A run that begins takes the container out of a pool. -/
def Takes (id : ContainerId) (s : Supervisor) (e : Event) : Prop :=
  ∃ (request : Request) (cancelled : Bool), e = .run request cancelled ∧
    (s.takeIdle request.language).1 = some id ∧
    (s.beginRun request cancelled).Has s.tasks.length id

/-- What an event does to an upkeep task and its pool. -/
inductive PoolTurn (s s' : Supervisor) (i : ℕ) (u : Upkeep) (p : WarmPool) : Event → Prop
  /-- The task goes on. -/
  | upkeep {sig : Signal} {u' : Upkeep} {p' : WarmPool}
      (step : u.step s.config.pool s.now s.stopping p sig = some (u', p'))
      (task : s'.tasks[i]? = some (.upkeep u')) (pool : s'.pools[i]? = some p') :
      PoolTurn s s' i u p (.signal i sig)
  | same {e : Event} (task : s'.tasks[i]? = some (.upkeep u)) (pool : s'.pools[i]? = some p) :
      PoolTurn s s' i u p e
  /-- A run takes the container that waited longest. -/
  | taken {e : Event} {id : ContainerId} {rest : List ContainerId} (idle : p.idle = id :: rest)
      (takes : Takes id s e) (task : s'.tasks[i]? = some (.upkeep u))
      (pool : s'.pools[i]? = some { p with idle := rest }) : PoolTurn s s' i u p e
  /-- A request to stop takes all containers. -/
  | swept {j : ℕ} {languages : List String} {c : Closing} (found : s.tasks[j]? = some (.closing c))
      (closing : s'.tasks[j]? = some (.closing (.sweep s.now languages p.idle)))
      (task : s'.tasks[i]? = some (.upkeep u)) (pool : s'.pools[i]? = some p.drain.2) :
      PoolTurn s s' i u p (.signal j .proceed)

theorem pools_spawn (t : Task) : (s.spawn t).pools = s.pools := by rw [spawn_eq]

/-- A run takes the container that waited longest in a pool, or leaves the pool as it is. -/
theorem takeIdle_at (laid : s.Laid) (hp : s.pools[i]? = some p) (language : String) :
    (s.takeIdle language).2.pools[i]? = some p ∨ ∃ id rest, p.idle = id :: rest ∧
      (s.takeIdle language).1 = some id ∧
      (s.takeIdle language).2.pools[i]? = some { p with idle := rest } := by
  unfold takeIdle
  split
  · rename_i pool hpool
    obtain ⟨_, j, hj⟩ := pool?_eq_some hpool
    have hl : pool.take.2.language = pool.language := rfl
    rw [setPool_eq laid.distinct hj hl]
    by_cases hij : j = i
    · subst hij
      obtain rfl : pool = p := Option.some.inj (hj.symm.trans hp)
      dsimp only
      rw [List.getElem?_set_self (List.getElem?_eq_some_iff.1 hp).1]
      obtain ⟨language, capacity, idle⟩ := pool
      cases idle with
      | nil => exact Or.inl rfl
      | cons id rest => exact Or.inr ⟨id, rest, rfl, rfl, rfl⟩
    · exact Or.inl (by rw [List.getElem?_set_ne hij, hp])
  · exact Or.inl hp

theorem poolTurn_of_beginRun (laid : s.Laid) (hp : s.pools[i]? = some p) {request : Request}
    {cancelled : Bool} (task : (s.beginRun request cancelled).tasks[i]? = some (.upkeep u)) :
    PoolTurn s (s.beginRun request cancelled) i u p (.run request cancelled) := by
  cases hjob : s.config.job? request with
  | none =>
    have hbegin : s.beginRun request cancelled =
        s.spawn (.run ⟨cancelled, .done (.error (.unsupported request.language))⟩) := by
      unfold beginRun
      rw [hjob]
    exact .same task (by rw [hbegin, pools_spawn, hp])
  | some job =>
    by_cases ht : job.takesIdle = true
    · have hbegin : s.beginRun request cancelled = (s.takeIdle request.language).2.spawn
          (.run ⟨cancelled, Run.begin (s.takeIdle request.language).2.now
            (s.takeIdle request.language).2.stamp job (s.takeIdle request.language).1⟩) := by
        unfold beginRun
        simp only [hjob, ht, if_true]
      rcases takeIdle_at laid hp request.language with hsame | ⟨id, rest, hidle, hid, hpool⟩
      · exact .same task (by rw [hbegin, pools_spawn, hsame])
      · have hhas : (s.beginRun request cancelled).Has s.tasks.length id := by
          rw [hbegin, hid, spawn_eq, (Frame.takeIdle s request.language).tasks]
          exact ⟨_, List.getElem?_concat_length, leased?_begin _ _ job id⟩
        exact .taken hidle ⟨request, cancelled, rfl, hid, hhas⟩ task
          (by rw [hbegin, pools_spawn, hpool])
    · have hbegin : s.beginRun request cancelled =
          s.spawn (.run ⟨cancelled, Run.begin s.now s.stamp job none⟩) := by
        unfold beginRun
        simp only [hjob, ht]
        rfl
      exact .same task (by rw [hbegin, pools_spawn, hp])

theorem poolTurn_of_goes {j : ℕ} {t t' : Task} (found : s.tasks[i]? = some (.upkeep u))
    (hp : s.pools[i]? = some p) (ht : s.tasks[j]? = some t)
    (goes : s.Goes j sig t t' s'.pools s'.unjoined) (tasks : s'.tasks = s.tasks.set j t') :
    PoolTurn s s' i u p (.signal j sig) := by
  have hlt : i < s.pools.length := (List.getElem?_eq_some_iff.1 hp).1
  have htask' : s'.tasks[j]? = some t' := by
    rw [tasks, List.getElem?_set_self (List.getElem?_eq_some_iff.1 ht).1]
  by_cases hne : j = i
  · subst hne
    cases ht.symm.trans found
    generalize hpools : s'.pools = pools', s'.unjoined = unjoined' at goes
    cases goes with
    | upkeep hp' hu =>
      cases hp'.symm.trans hp
      exact .upkeep hu htask' (by rw [hpools, List.getElem?_set_self hlt])
  · have htask : s'.tasks[i]? = some (.upkeep u) := by
      rw [tasks, List.getElem?_set_ne hne, found]
    generalize hpools : s'.pools = pools', s'.unjoined = unjoined' at goes
    cases goes with
    | upkeep _ _ => exact .same htask (by rw [hpools, List.getElem?_set_ne hne, hp])
    | @sweep _ _ m pool proceed hm =>
      subst proceed
      -- the pool that is swept may be another one
      by_cases hmi : m = i
      · subst hmi
        cases hm.symm.trans hp
        exact .swept ht htask' htask (by rw [hpools, List.getElem?_set_self hlt])
      · exact .same htask (by rw [hpools, List.getElem?_set_ne hmi, hp])
    | _ => exact .same htask (by rw [hpools, hp])

/-- **Nothing else can happen to an upkeep task and its pool.** -/
theorem poolTurn_of_step (laid : s.Laid) (ordinary : e.Ordinary)
    (found : s.tasks[i]? = some (.upkeep u)) (hp : s.pools[i]? = some p)
    (hstep : s.step e = some s') : PoolTurn s s' i u p e := by
  have hturn := turn_of_step laid ordinary hstep
  have task : (∀ sig, e ≠ .signal i sig) → s'.tasks[i]? = some (.upkeep u) := by
    intro hne
    rcases upkeep_of_step found hstep with ⟨_, htask, _⟩ | ⟨sig, _, _, _, he, _⟩
    · exact htask
    · exact absurd he (hne sig)
  cases e with
  | run request cancelled =>
    cases hstep
    exact poolTurn_of_beginRun laid hp (task (by rintro _ ⟨⟩))
  | close =>
    cases hstep
    exact .same (task (by rintro _ ⟨⟩)) (by rw [pools_spawn, hp])
  | abandon =>
    cases hstep
    exact .same found hp
  | advance moment =>
    simp only [step] at hstep
    split_ifs at hstep
    cases hstep
    exact .same found hp
  | cancel j =>
    cases hturn with
    | quiet aside _ _ _ _ _ => cases aside
    | spawn aside _ _ _ _ _ _ _ => cases aside
    | cancel _ _ _ pools _ _ => exact .same (task (by rintro _ ⟨⟩)) (by rw [pools, hp])
  | drop j =>
    cases hturn with
    | quiet aside _ _ _ _ _ => cases aside
    | spawn aside _ _ _ _ _ _ _ => cases aside
    | drop _ _ _ _ pools _ _ => exact .same (task (by rintro _ ⟨⟩)) (by rw [pools, hp])
  | signal j sig =>
    cases hturn with
    | quiet aside _ _ _ _ _ => cases aside
    | spawn aside _ _ _ _ _ _ _ => cases aside
    | signal ht goes _ tasks _ => exact poolTurn_of_goes found hp ht goes tasks
  | provision spec => cases ordinary
  | remove id => cases ordinary
  | push language id => cases ordinary
  | take language => cases ordinary
  | drain language => cases ordinary

/-! ### What comes into a pool -/

/-- The upkeep task at place `k`, or a request to stop, has taken the container out of the pool and
will ask for its removal. -/
def Awaits (k : ℕ) (id : ContainerId) (s : Supervisor) : Prop :=
  ∃ (j : ℕ) (t : Task), s.tasks[j]? = some t ∧ (j = k ∨ ∃ c, t = .closing c) ∧ id ∈ t.waiting

/-- The upkeep task at place `k`, or a request to stop, asks for the removal of the container. -/
def Disposes (k : ℕ) (id : ContainerId) (s : Supervisor) (e : Event) : Prop :=
  ∃ (j : ℕ) (t : Task), s.tasks[j]? = some t ∧ (j = k ∨ ∃ c, t = .closing c) ∧
    Asks j (.remove id) s e

/-- The caller of a request to stop drops it while it has taken the container and not yet asked for
its removal. -/
def Forsakes (id : ContainerId) (s : Supervisor) (e : Event) : Prop :=
  ∃ (j : ℕ) (c : Closing), e = .drop j ∧ s.tasks[j]? = some (.closing c) ∧ id ∈ c.waiting

/-- The upkeep task at place `k` is about to empty its pool, in which the container is idle. -/
def Leaves (k : ℕ) (id : ContainerId) (s : Supervisor) : Prop :=
  ∃ (u : Upkeep) (p : WarmPool), s.tasks[k]? = some (.upkeep u) ∧ s.pools[k]? = some p ∧
    u.point = .leaving ∧ id ∈ p.idle

/-- Of what an upkeep task takes out of its pool, it asks for the removal of the first container,
and the others wait. -/
theorem mem_empty {ids : List ContainerId} (h : id ∈ ids) (now : Instant) :
    (Upkeep.empty now ids).call? = some (.remove id) ∨ id ∈ (Upkeep.empty now ids).waiting := by
  cases ids with
  | nil => cases h
  | cons first rest =>
    rcases List.mem_cons.1 h with rfl | h
    · exact Or.inl rfl
    · exact Or.inr h

/-- So it is with what a request to stop takes out of a pool. -/
theorem mem_sweep {ids : List ContainerId} (h : id ∈ ids) (now : Instant)
    (languages : List String) :
    (Closing.sweep now languages ids).call? = some (.remove id) ∨
      id ∈ (Closing.sweep now languages ids).waiting := by
  cases ids with
  | nil => cases h
  | cons first rest =>
    rcases List.mem_cons.1 h with rfl | h
    · exact Or.inl rfl
    · exact Or.inr h

/-- A task that goes on asks for the removal of a container, or keeps it for later. -/
theorem disposes_or_awaits {j : ℕ} {t t' : Task} (hstep : s.step (.signal j sig) = some s')
    (found : s.tasks[j]? = some t) (found' : s'.tasks[j]? = some t')
    (kind : j = k ∨ ∃ c, t = .closing c) (kind' : j = k ∨ ∃ c, t' = .closing c)
    (h : t'.call? = some (.remove id) ∨ id ∈ t'.waiting) :
    Awaits k id s' ∨ Disposes k id s (.signal j sig) := by
  rcases h with hcall | hwait
  · exact Or.inr ⟨j, t, found, kind, asks_of_signal hstep found' hcall⟩
  · exact Or.inl ⟨j, t', found', kind', hwait⟩

/-- **A container that is idle when the task leaves** is taken out of the pool by a run, or by the
task or a request to stop. -/
theorem Leaves.step (h : Leaves k id s) (laid : s.Laid) (ordinary : e.Ordinary)
    (hstep : s.step e = some s') :
    Leaves k id s' ∨ Awaits k id s' ∨ Disposes k id s e ∨ Takes id s e := by
  obtain ⟨u, p, found, hp, leaving, hid⟩ := h
  cases poolTurn_of_step laid ordinary found hp hstep with
  | upkeep step task pool =>
    obtain ⟨point', rfl, hpoint⟩ := Upkeep.step_eq_some step
    rw [leaving] at hpoint
    obtain ⟨rfl, rfl, rfl⟩ := Upkeep.Point.step_leaving hpoint
    rcases disposes_or_awaits hstep found task (Or.inl rfl) (Or.inl rfl)
      (mem_empty hid s.now) with h | h
    · exact Or.inr (Or.inl h)
    · exact Or.inr (Or.inr (Or.inl h))
  | same task pool => exact Or.inl ⟨u, p, task, pool, leaving, hid⟩
  | @taken _ first rest idle takes task pool =>
    rw [idle] at hid
    rcases List.mem_cons.1 hid with rfl | hid
    · exact Or.inr (Or.inr (Or.inr takes))
    · exact Or.inl ⟨u, _, task, pool, leaving, hid⟩
  | @swept j languages c hc closing task pool =>
    rcases disposes_or_awaits hstep hc closing (Or.inr ⟨c, rfl⟩) (Or.inr ⟨_, rfl⟩)
      (mem_sweep hid s.now languages) with h | h
    · exact Or.inr (Or.inl h)
    · exact Or.inr (Or.inr (Or.inl h))

/-- **A container that waits for its removal** waits until it is asked for, unless the request to
stop that has it is dropped. -/
theorem Awaits.step (h : Awaits k id s) (laid : s.Laid) (ordinary : e.Ordinary)
    (kept : ¬ Forsakes id s e) (hstep : s.step e = some s') :
    Awaits k id s' ∨ Disposes k id s e := by
  obtain ⟨j, t, found, kind, hid⟩ := h
  rcases (turn_of_step laid ordinary hstep).task found with ⟨_, found'⟩ | ⟨r, rfl, _⟩ |
    ⟨sig, t', rfl, goes, found'⟩ | ⟨rfl, hkind, _⟩
  · exact Or.inl ⟨j, t, found', kind, hid⟩
  · cases hid
  · generalize s'.pools = pools', s'.unjoined = unjoined' at goes
    cases goes with
    | @upkeep u u' pool pool' _ hu =>
      obtain ⟨point', rfl, hpoint⟩ := Upkeep.step_eq_some hu
      obtain ⟨language, spec, point⟩ := u
      cases point with
      | emptying removal rest =>
        obtain ⟨_, _, rfl⟩ := Upkeep.Point.step_emptying hpoint
        have hk : j = k := kind.resolve_right (by rintro ⟨c, ⟨⟩⟩)
        exact disposes_or_awaits hstep found found' (Or.inl hk) (Or.inl hk) (mem_empty hid s.now)
      | _ => cases hid
    | @closing c c' _ hold _ _ _ =>
      have hcount := hold id
      rw [Closing.holding_eq] at hcount
      have hmem : id ∈ (Task.closing c').inHand := by
        rw [← List.count_pos_iff, hcount]
        exact List.count_pos_iff.2 hid
      refine disposes_or_awaits hstep found found' (Or.inr ⟨c, rfl⟩) (Or.inr ⟨c', rfl⟩) ?_
      rcases List.mem_append.1 hmem with hwait | hrem
      · rw [Closing.holding_eq] at hwait
        exact Or.inr hwait
      · exact Or.inl (Task.call?_of_removing hrem)
    | _ => cases hid
  · rcases hkind with hrun | ⟨c, rfl⟩
    · cases t with
      | run r => cases hid
      | _ => cases hrun
    · exact absurd ⟨j, c, rfl, found, hid⟩ kept

/-- A container that is about to be provided is in the hands of the task. -/
theorem Ends.held (h : Ends k (.ok id) s e) :
    ∃ u, s.tasks[k]? = some (.upkeep u) ∧ id ∈ (Task.upkeep u).inHand ∧ u.point.settled = [] := by
  obtain ⟨u, provision, sig, _, found, hpoint, hstep⟩ := h
  obtain rfl : provision = .starting id := by
    rcases Provision.step_eq_some hstep with ⟨_, _, _, _, hq⟩ | ⟨_, _, _, _, hq⟩ |
      ⟨id', rfl, _, hq⟩ | ⟨_, _, _, _, hq⟩ | ⟨_, _, _, _, hq⟩ <;> cases hq
    rfl
  refine ⟨u, found, ?_, by rw [hpoint]; rfl⟩
  rw [Upkeep.inHand_eq, hpoint]
  exact List.mem_cons_self

/-- A configuration of one language whose upkeep makes no pause after a failure. -/
def hasty : Config := { Config.small with pool := { Config.small.pool with retryBackoff := 0 } }

end Supervisor

end Isolate
