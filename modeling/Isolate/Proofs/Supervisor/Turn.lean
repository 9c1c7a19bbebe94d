import Isolate.Proofs.Supervisor.Custody

/-!
# What an event can do

Whatever happens to a supervisor, at most one task goes on and at most one is begun. `Turn` lists
what an event can do to the tasks, the pools and the calls, and `turn_of_step` says that there is
nothing else; what holds of all events is read off it.

* `Event.Ordinary`: the events that runs, upkeep tasks, closings and their callers bring about;
* `Goes`: how a task that is told something goes on;
* `Turn`, `turn_of_step`, `Laid.after?`;
* `Task.Passes`, `Goes.passes`: a container that changes hands goes from one owner to the next.
-/

namespace Isolate

/-- What the supervisor's own tasks and the callers of runs and of the stop do. Nobody reaches into
a pool, and nobody provides or removes a container by hand. -/
def Event.Ordinary : Event → Prop
  | .provision _ => False
  | .remove _ => False
  | .push _ _ => False
  | .take _ => False
  | .drain _ => False
  | _ => True

/-- The task that an event is about. -/
def Event.task? : Event → Option ℕ
  | .cancel k => some k
  | .drop k => some k
  | .signal k _ => some k
  | _ => none

/-- The upkeep tasks that a closing waits for. -/
def Closing.joins : Closing → List ℕ
  | .joining tasks => tasks
  | _ => []

/-- The closing has taken over the upkeep tasks. -/
def Closing.hasGathered : Closing → Bool
  | .signalling => false
  | .gathering => false
  | _ => true

namespace Task

/-- The task is a run. -/
def isRun : Task → Bool
  | .run _ => true
  | _ => false

/-- A container in the hands of the task is never handed to a pool. -/
def keeps : Task → Bool
  | .run _ => true
  | .removal _ => true
  | .over => true
  | _ => false

/-- What is left to do when a task is dropped at a moment: the container that a run has to itself
goes. -/
def remainder (now : Instant) : Task → List Task
  | .run r => (r.stage.leased?.map fun id => .removal (.begin now id)).toList
  | _ => []

theorem mem_remainder {now : Instant} {t t' : Task} (h : t' ∈ t.remainder now) :
    ∃ r, t' = .removal r := by
  cases t with
  | run r =>
    obtain ⟨id, _, rfl⟩ := Option.map_eq_some_iff.1 (Option.mem_toList.1 h)
    exact ⟨_, rfl⟩
  | _ => cases h

end Task

/-- Nothing comes into any pool. -/
structure Shrinks (pools pools' : List WarmPool) : Prop where
  languages : pools'.map (·.language) = pools.map (·.language)
  idle : ∀ {i : ℕ} {p' : WarmPool}, pools'[i]? = some p' →
    ∃ p, pools[i]? = some p ∧ p'.idle ⊆ p.idle

/-- Replacing a pool at its place by one of the same language keeps the languages. -/
theorem languages_set {pools : List WarmPool} {i : ℕ} {pool pool' : WarmPool}
    (h : pools[i]? = some pool) (hl : pool'.language = pool.language) :
    (pools.set i pool').map (·.language) = pools.map (·.language) := by
  obtain ⟨hi, rfl⟩ := List.getElem?_eq_some_iff.1 h
  rw [List.map_set, hl]
  apply List.ext_getElem?
  intro j
  rw [List.getElem?_set]
  split_ifs with hij hlt
  · subst hij
    rw [List.getElem?_map, h, Option.map_some]
  · rw [List.length_map] at hlt
    exact absurd hi (hij ▸ hlt)
  · rfl

theorem Shrinks.refl (pools : List WarmPool) : Shrinks pools pools :=
  ⟨rfl, fun h => ⟨_, h, fun _ hi => hi⟩⟩

theorem Shrinks.set {pools : List WarmPool} {i : ℕ} {pool pool' : WarmPool}
    (h : pools[i]? = some pool) (hl : pool'.language = pool.language)
    (hi : pool'.idle ⊆ pool.idle) : Shrinks pools (pools.set i pool') := by
  refine ⟨languages_set h hl, fun {j p'} hj => ?_⟩
  rw [List.getElem?_set] at hj
  split_ifs at hj with hij hlt
  · subst hij
    cases hj
    exact ⟨pool, h, hi⟩
  · exact ⟨p', hj, fun _ hx => hx⟩

theorem Upkeep.language_step {settings : PoolSettings} {now : Instant} {stopping : Bool}
    {u u' : Upkeep} {pool pool' : WarmPool} {sig : Signal}
    (h : u.step settings now stopping pool sig = some (u', pool')) :
    u'.language = u.language ∧ pool'.language = pool.language := by
  refine ⟨?_, ?_⟩
  · obtain ⟨point', rfl, _⟩ := step_eq_some h
    rfl
  · rcases pool_of_step h with rfl | ⟨op, rfl⟩
    · rfl
    · exact WarmPool.language_perform pool op

namespace Supervisor

/-- How a task goes on when it is told something, with the pools and the upkeep tasks that nobody
waits for afterwards. -/
inductive Goes (s : Supervisor) (k : ℕ) (sig : Signal) : Task → Task → List WarmPool → List ℕ → Prop
  | run {r r' : Run} (h : r.step s.now s.stamp sig = some r') :
      Goes s k sig (.run r) (.run r') s.pools s.unjoined
  | upkeep {u u' : Upkeep} {pool pool' : WarmPool} (hp : s.pools[k]? = some pool)
      (h : u.step s.config.pool s.now s.stopping pool sig = some (u', pool')) :
      Goes s k sig (.upkeep u) (.upkeep u') (s.pools.set k pool') s.unjoined
  | removal {r : Removal} {p : Progress Removal Unit} (h : r.step s.now sig = some p) :
      Goes s k sig (.removal r) .over s.pools s.unjoined
  | gather (proceed : sig = .proceed) :
      Goes s k sig (.closing .gathering) (.closing (.joining s.unjoined)) s.pools []
  /-- A closing takes what is left in a pool. -/
  | sweep {language : String} {languages : List String} {i : ℕ} {pool : WarmPool}
      (proceed : sig = .proceed) (hp : s.pools[i]? = some pool) :
      Goes s k sig (.closing (.sweeping (language :: languages)))
        (.closing (.sweep s.now languages pool.idle)) (s.pools.set i pool.drain.2) s.unjoined
  /-- Everything else that a closing does. -/
  | closing {c c' : Closing} (born : sig.created? = none)
      (hold : ∀ id, (Task.closing c').inHand.count id = (Task.closing c).holding.count id)
      (join : ∀ i ∈ c.joins, i ∈ c'.joins ∨ s.hasEnded i = true)
      (gathered : c'.hasGathered = c.hasGathered) (left : c ≠ .gathering) :
      Goes s k sig (.closing c) (.closing c') s.pools s.unjoined

/-- What an event can do. -/
inductive Turn (s s' : Supervisor) : Event → Prop
  /-- Time goes on, or the sign to stop is given. -/
  | quiet {e : Event} (aside : e.task? = none)
      (frame : (s'.now = s.now ∨ ∀ t ∈ s.tasks, ∀ wake ∈ t.wake?, s'.now ≤ wake) ∧
        s'.config = s.config)
      (tasks : s'.tasks = s.tasks) (pools : s'.pools = s.pools)
      (unjoined : s'.unjoined = s.unjoined) (calls : s'.calls = s.calls) : Turn s s' e
  | cancel {k : ℕ} {r : Run} (found : s.tasks[k]? = some (.run r))
      (frame : s'.now = s.now ∧ s'.config = s.config)
      (tasks : s'.tasks = s.tasks.set k (.run { r with cancelled := true }))
      (pools : s'.pools = s.pools) (unjoined : s'.unjoined = s.unjoined)
      (calls : s'.calls = s.calls) : Turn s s' (.cancel k)
  /-- A task begins, with what it takes from a pool. -/
  | spawn {e : Event} {t : Task} (aside : e.task? = none)
      (fresh : t.isRun = true ∨ t = .closing .signalling)
      (frame : s'.now = s.now ∧ s'.config = s.config) (shrinks : Shrinks s.pools s'.pools)
      (balance : ∀ id, t.inHand.count id + s'.idle.count id = s.idle.count id)
      (tasks : s'.tasks = s.tasks ++ [t]) (unjoined : s'.unjoined = s.unjoined)
      (calls : s'.calls = callsOf s.tasks.length t ++ s.calls) : Turn s s' e
  | signal {k : ℕ} {sig : Signal} {t t' : Task} (found : s.tasks[k]? = some t)
      (goes : s.Goes k sig t t' s'.pools s'.unjoined)
      (frame : s'.now = s.now ∧ s'.config = s.config)
      (tasks : s'.tasks = s.tasks.set k t') (calls : s'.calls = callsOf k t' ++ s.calls) :
      Turn s s' (.signal k sig)
  | drop {k : ℕ} {t : Task} (found : s.tasks[k]? = some t)
      (kind : t.isRun = true ∨ ∃ c, t = .closing c) (frame : s'.now = s.now ∧ s'.config = s.config)
      (tasks : s'.tasks = s.tasks.set k .over ++ t.remainder s.now) (pools : s'.pools = s.pools)
      (unjoined : s'.unjoined = s.unjoined)
      (calls : s'.calls = (t.remainder s.now).flatMap (callsOf s.tasks.length) ++ s.calls) :
      Turn s s' (.drop k)

variable {s s' : Supervisor} {e : Event} {i k : ℕ} {sig : Signal}

/-! ### The turns of a supervisor -/

/-- What follows from a closing that goes on without a look at the pools. -/
theorem turn_closing {c c' : Closing} (hk : s.tasks[k]? = some (.closing c)) {stopping : Bool}
    (goes : s.Goes k sig (.closing c) (.closing c') s.pools s.unjoined) :
    Turn s ({ s with stopping }.goOn k (.closing c')) (.signal k sig) := by
  rw [goOn_eq]
  exact .signal hk goes ⟨rfl, rfl⟩ rfl rfl

theorem hasGathered_sweep (now : Instant) (languages : List String) (ids : List ContainerId) :
    (Closing.sweep now languages ids).hasGathered = true := by
  cases ids <;> cases languages <;> rfl

/-- A closing that waits for nobody goes on to what it has taken. -/
theorem goes_sweep {c : Closing} {languages : List String} {ids : List ContainerId}
    (born : sig.created? = none) (waiting : c.waiting = ids) (gathered : c.hasGathered = true)
    (joins : c.joins = []) :
    s.Goes k sig (.closing c) (.closing (.sweep s.now languages ids)) s.pools s.unjoined := by
  refine .closing born (fun id => ?_) (by simp [joins]) ?_ ?_
  · rw [Closing.count_sweep, Closing.holding_eq, waiting]
  · rw [hasGathered_sweep, gathered]
  · rintro rfl
    cases gathered

theorem turn_of_stepClosing (hs : s.Laid) {c : Closing} (hk : s.tasks[k]? = some (.closing c))
    (h : s.stepClosing k c sig = some s') : Turn s s' (.signal k sig) := by
  cases c with
  | signalling =>
    obtain ⟨rfl, rfl⟩ := stepClosing_signalling h
    exact turn_closing hk (.closing rfl (fun _ => rfl) (by simp [Closing.joins]) rfl (by simp))
  | gathering =>
    obtain ⟨rfl, rfl⟩ := stepClosing_gathering h
    rw [goOn_eq]
    exact .signal hk (.gather rfl) ⟨rfl, rfl⟩ rfl rfl
  | joining tasks =>
    obtain ⟨rfl, ⟨rfl, rfl⟩ | ⟨task, rest, rfl, he, rfl⟩⟩ := stepClosing_joining h
    · exact turn_closing hk (goes_sweep rfl rfl rfl rfl)
    · refine turn_closing hk (.closing rfl (fun _ => rfl) (fun i hi => ?_) rfl (by simp))
      rcases List.mem_cons.1 hi with rfl | hi
      · exact Or.inr he
      · exact Or.inl hi
  | sweeping languages =>
    obtain ⟨rfl, ⟨rfl, rfl⟩ | ⟨language, rest, rfl, ⟨pool, hp, rfl⟩ | ⟨_, rfl⟩⟩⟩ :=
      stepClosing_sweeping h
    · exact turn_closing hk (.closing rfl (fun _ => rfl) (by simp [Closing.joins]) rfl (by simp))
    · obtain ⟨_, i, hi⟩ := pool?_eq_some hp
      rw [setPool_eq hs.distinct hi (show pool.drain.2.language = _ from rfl), goOn_eq]
      exact .signal hk (.sweep rfl hi) ⟨rfl, rfl⟩ rfl rfl
    · exact turn_closing hk (goes_sweep rfl rfl rfl rfl)
  | removing removal rest languages =>
    obtain ⟨hr, rfl⟩ := stepClosing_removing h
    exact turn_closing hk (goes_sweep (Removal.created?_of_step hr) rfl rfl rfl)
  | ended => simp [stepClosing_ended] at h

theorem turn_of_stepTask (hs : s.Laid) {t : Task} (hk : s.tasks[k]? = some t)
    (h : s.stepTask k t sig = some s') : Turn s s' (.signal k sig) := by
  cases t with
  | run r =>
    obtain ⟨r', hr, rfl⟩ := Option.map_eq_some_iff.1 h
    rw [goOn_eq]
    exact .signal hk (.run hr) ⟨rfl, rfl⟩ rfl rfl
  | upkeep u =>
    obtain ⟨pool, hp, hl, hq⟩ := hs.keeper hk
    simp only [stepTask, hq] at h
    obtain ⟨⟨u', pool'⟩, hu, rfl⟩ := Option.map_eq_some_iff.1 h
    rw [setPool_eq hs.distinct hp (Upkeep.language_step hu).2, goOn_eq]
    exact .signal hk (.upkeep hp hu) ⟨rfl, rfl⟩ rfl rfl
  | closing c => exact turn_of_stepClosing hs hk h
  | removal r =>
    simp only [stepTask] at h
    cases hr : r.step s.now sig with
    | none => simp [hr] at h
    | some p =>
      obtain ⟨rfl, _⟩ := Removal.step_eq_some hr
      simp only [hr, Option.some.injEq] at h
      rw [← h, goOn_eq]
      exact .signal hk (.removal hr) ⟨rfl, rfl⟩ rfl rfl
  | provision p => exact absurd (List.mem_of_getElem? hk) (hs.no_provision p)
  | _ => cases h

theorem inHand_begin (c : Bool) (now stamp : ℕ) (job : Job) (idle : Option ContainerId) :
    (Task.run ⟨c, Run.begin now stamp job idle⟩).inHand = idle.toList := by
  cases idle with
  | none => rfl
  | some id => exact Run.inHand_acquired c now stamp job id

/-- A run that may take an idle container takes the one that waited longest, if there is any. -/
theorem takeIdle_eq (hs : s.Laid) (language : String) :
    ∃ idle pools, s.takeIdle language = (idle, { s with pools }) ∧ Shrinks s.pools pools ∧
      (∀ id, idle.toList.count id + (pools.flatMap (·.idle)).count id = s.idle.count id) ∧
      ∀ id ∈ idle, ∃ (i : ℕ) (p : WarmPool), s.pools[i]? = some p ∧ p.language = language ∧
        id ∈ p.idle := by
  unfold takeIdle
  split
  · rename_i pool hp
    obtain ⟨hlang, i, hi⟩ := pool?_eq_some hp
    have hl : pool.take.2.language = pool.language := rfl
    refine ⟨pool.take.1, s.pools.set i pool.take.2, by rw [setPool_eq hs.distinct hi hl],
      .set hi hl (List.tail_subset _), fun id => ?_,
      fun id hid => ⟨i, pool, hi, hlang, List.mem_of_mem_head? hid⟩⟩
    have hc := count_flatMap_set (·.idle) id pool.take.2 hi
    have ht : pool.take.1.toList.count id + pool.take.2.idle.count id = pool.idle.count id := by
      rw [WarmPool.idle_take, ← List.count_append]
      unfold WarmPool.take
      cases pool.idle <;> rfl
    have hi' : s.idle = s.pools.flatMap (·.idle) := rfl
    rw [hi']
    omega
  · exact ⟨none, s.pools, rfl, .refl _, fun id => by simp [idle], by rintro id ⟨⟩⟩

/-- A task that begins with empty hands takes nothing from the pools. -/
theorem turn_spawn {t : Task} (aside : e.task? = none)
    (fresh : t.isRun = true ∨ t = .closing .signalling) (ht : t.inHand = []) :
    Turn s (s.spawn t) e := by
  rw [spawn_eq]
  exact .spawn aside fresh ⟨rfl, rfl⟩ (.refl _) (fun id => by rw [ht]; exact Nat.zero_add _)
    rfl rfl rfl

theorem turn_of_beginRun (hs : s.Laid) (request : Request) (cancelled : Bool) :
    Turn s (s.beginRun request cancelled) (.run request cancelled) := by
  unfold beginRun
  split
  · exact turn_spawn rfl (Or.inl rfl) rfl
  · rename_i job _
    split_ifs
    · obtain ⟨idle, pools, he, hshrinks, hcount, _⟩ := takeIdle_eq hs request.language
      simp only [he, spawn_eq]
      exact .spawn rfl (Or.inl rfl) ⟨rfl, rfl⟩ hshrinks
        (fun id => by rw [inHand_begin]; exact hcount id) rfl rfl rfl
    · exact turn_spawn rfl (Or.inl rfl) rfl

theorem turn_of_dropRun {r : Run} (hk : s.tasks[k]? = some (.run r)) :
    Turn s (s.dropRun k r) (.drop k) := by
  unfold dropRun
  cases hl : r.stage.leased? with
  | none =>
    rw [goOn_eq]
    exact .drop hk (Or.inl rfl) ⟨rfl, rfl⟩ (by simp [Task.remainder, hl]) rfl rfl
      (by simp [Task.remainder, hl, callsOf, Task.call?])
  | some id =>
    simp only [goOn_eq, spawn_eq]
    exact .drop hk (Or.inl rfl) ⟨rfl, rfl⟩ (by simp [Task.remainder, hl]) rfl rfl
      (by simp [Task.remainder, hl, callsOf, Task.call?])

/-- **Nothing else can happen.** Every event takes one of these turns. -/
theorem turn_of_step (hs : s.Laid) (he : e.Ordinary) (h : s.step e = some s') :
    Turn s s' e := by
  cases e with
  | run request cancelled =>
    cases h
    exact turn_of_beginRun hs request cancelled
  | close =>
    cases h
    exact turn_spawn rfl (Or.inr rfl) rfl
  | abandon =>
    cases h
    exact .quiet rfl ⟨Or.inl rfl, rfl⟩ rfl rfl rfl rfl
  | cancel k =>
    simp only [step] at h
    split at h <;> cases h
    exact .cancel ‹_› ⟨rfl, rfl⟩ rfl rfl rfl rfl
  | drop k =>
    simp only [step] at h
    split at h <;> cases h
    · exact turn_of_dropRun ‹_›
    · rw [goOn_eq]
      exact .drop ‹_› (Or.inr ⟨_, rfl⟩) ⟨rfl, rfl⟩ (by simp [Task.remainder]) rfl rfl rfl
  | signal k sig =>
    simp only [step] at h
    split at h
    · exact turn_of_stepTask hs ‹_› h
    · cases h
  | advance moment =>
    simp only [step] at h
    split_ifs at h with hm
    cases h
    refine .quiet rfl ⟨Or.inr fun t ht wake hw => ?_, rfl⟩ rfl rfl rfl rfl
    have := List.all_eq_true.1 hm.2 t ht
    rw [Option.mem_def.1 hw] at this
    simpa using this
  -- these are not part of the life of a runner
  | provision spec => cases he
  | remove id => cases he
  | push language id => cases he
  | take language => cases he
  | drain language => cases he

/-! ### How containers are passed on -/

/-- One task comes in the place of another while the pools change. -/
structure Passes (t t' : Task) (pools pools' : List WarmPool) (born : List ContainerId) : Prop where
  language : t'.language? = t.language?
  languages : pools'.map (·.language) = pools.map (·.language)
  isRun : t'.isRun = true → t.isRun = true
  keeps : t.keeps = true → t'.keeps = true ∧ pools' = pools
  balance : ∀ id, t'.inHand.count id + (pools'.flatMap (·.idle)).count id =
    t.holding.count id + (pools.flatMap (·.idle)).count id + born.count id

/-- A task that goes on has what it held, what came out of the pools and what was created. -/
theorem Goes.passes {t t' : Task} {pools : List WarmPool} {unjoined : List ℕ}
    (h : s.Goes k sig t t' pools unjoined) : Passes t t' s.pools pools sig.created?.toList := by
  cases h with
  | run h =>
    refine ⟨rfl, rfl, fun _ => rfl, fun _ => ⟨rfl, rfl⟩, fun id => ?_⟩
    rw [Run.inHand_step h, List.count_append]
    omega
  | @upkeep u u' pool pool' hp h =>
    obtain ⟨hl, hl'⟩ := Upkeep.language_step h
    refine ⟨congrArg some hl, languages_set hp hl', fun h => h, by rintro ⟨⟩, fun id => ?_⟩
    have hc := Upkeep.count_step h id
    have hs := count_flatMap_set (·.idle) id pool' hp
    omega
  | removal h =>
    refine ⟨rfl, rfl, by rintro ⟨⟩, fun _ => ⟨rfl, rfl⟩, fun id => ?_⟩
    rw [Removal.created?_of_step h]
    rfl
  | gather proceed =>
    subst proceed
    exact ⟨rfl, rfl, fun h => h, by rintro ⟨⟩, fun id => rfl⟩
  | @sweep language languages i pool proceed hp =>
    subst proceed
    refine ⟨rfl, languages_set hp rfl, fun h => h, by rintro ⟨⟩, fun id => ?_⟩
    have hs := count_flatMap_set (·.idle) id pool.drain.2 hp
    rw [WarmPool.idle_drain] at hs
    rw [Closing.count_sweep, Closing.holding_eq]
    simp only [Closing.waiting, Signal.created?, Option.toList_none, List.count_nil] at hs ⊢
    omega
  | closing born hold _ _ _ =>
    refine ⟨rfl, rfl, fun h => h, by rintro ⟨⟩, fun id => ?_⟩
    rw [born, hold]
    rfl

/-- Whoever goes on, nothing comes into the pools of others. -/
theorem Goes.idle_subset {t t' : Task} {pools : List WarmPool} {unjoined : List ℕ}
    (h : s.Goes k sig t t' pools unjoined) (hi : i ≠ k ∨ t.language? = none) {p' : WarmPool}
    (hp : pools[i]? = some p') : ∃ p, s.pools[i]? = some p ∧ p'.idle ⊆ p.idle := by
  cases h with
  | @upkeep _ _ pool pool' hk _ =>
    rcases hi with hi | hi
    · rw [List.getElem?_set_ne (Ne.symm hi)] at hp
      exact ⟨p', hp, fun _ hx => hx⟩
    · cases hi
  | @sweep _ _ _ pool _ hj =>
    have hl : pool.drain.2.language = pool.language := rfl
    exact (Shrinks.set hj hl (List.nil_subset _)).idle hp
  | _ => exact ⟨p', hp, fun _ hx => hx⟩

theorem Turn.config (h : Turn s s' e) : s'.config = s.config := by
  cases h with
  | quiet _ frame _ _ _ _ => exact frame.2
  | cancel _ frame _ _ _ _ => exact frame.2
  | spawn _ _ frame _ _ _ _ _ => exact frame.2
  | signal _ _ frame _ _ => exact frame.2
  | drop _ _ frame _ _ _ _ => exact frame.2

theorem Goes.not_provision {t t' : Task} {pools : List WarmPool} {unjoined : List ℕ}
    (h : s.Goes k sig t t' pools unjoined) (p : Provision) : t' ≠ .provision p := by
  cases h <;> simp

/-! ### What becomes of one task -/

/-- A task stays as it is, or it goes on, or its caller cancels or drops it. -/
theorem Turn.task (h : Turn s s' e) {t : Task} (hi : s.tasks[i]? = some t) :
    (e.task? ≠ some i ∧ s'.tasks[i]? = some t) ∨
      (∃ r, t = .run r ∧ e = .cancel i ∧ s'.tasks[i]? = some (.run { r with cancelled := true })) ∨
      (∃ sig t', e = .signal i sig ∧ s.Goes i sig t t' s'.pools s'.unjoined ∧
        s'.tasks[i]? = some t') ∨
      (e = .drop i ∧ (t.isRun = true ∨ ∃ c, t = .closing c) ∧ s'.tasks[i]? = some .over) := by
  have hlt : i < s.tasks.length := (List.getElem?_eq_some_iff.1 hi).1
  cases h with
  | quiet aside _ tasks _ _ _ =>
    rw [tasks, aside]
    exact Or.inl ⟨by rintro ⟨⟩, hi⟩
  | @cancel k r found _ tasks _ _ _ =>
    rw [tasks]
    by_cases hik : k = i
    · subst hik
      rw [List.getElem?_set_self hlt]
      exact Or.inr (Or.inl ⟨r, Option.some.inj (hi.symm.trans found), rfl, rfl⟩)
    · rw [List.getElem?_set_ne hik]
      exact Or.inl ⟨fun he => hik (Option.some.inj he), hi⟩
  | spawn aside _ _ _ _ tasks _ _ =>
    rw [tasks, aside, List.getElem?_append_left hlt]
    exact Or.inl ⟨by rintro ⟨⟩, hi⟩
  | @signal k sig t₁ t' found goes _ tasks _ =>
    rw [tasks]
    by_cases hik : k = i
    · subst hik
      obtain rfl : t = t₁ := Option.some.inj (hi.symm.trans found)
      exact Or.inr (Or.inr (Or.inl ⟨sig, t', rfl, goes, List.getElem?_set_self hlt⟩))
    · rw [List.getElem?_set_ne hik]
      exact Or.inl ⟨fun he => hik (Option.some.inj he), hi⟩
  | @drop k t₁ found kind _ tasks _ _ _ =>
    rw [tasks, List.getElem?_append_left (by rwa [List.length_set])]
    by_cases hik : k = i
    · subst hik
      obtain rfl : t = t₁ := Option.some.inj (hi.symm.trans found)
      exact Or.inr (Or.inr (Or.inr ⟨rfl, kind, List.getElem?_set_self hlt⟩))
    · rw [List.getElem?_set_ne hik]
      exact Or.inl ⟨fun he => hik (Option.some.inj he), hi⟩

theorem Turn.languages (h : Turn s s' e) :
    s'.pools.map (·.language) = s.pools.map (·.language) := by
  cases h with
  | quiet _ _ _ pools _ _ => rw [pools]
  | cancel _ _ _ pools _ _ => rw [pools]
  | spawn _ _ _ shrinks _ _ _ _ => exact shrinks.languages
  | signal _ goes _ _ _ => exact goes.passes.languages
  | drop _ _ _ _ pools _ _ => rw [pools]

/-- Only an upkeep task that goes on puts something into its pool. -/
theorem Turn.idle_subset (h : Turn s s' e)
    (hi : e.task? ≠ some i ∨ (s.tasks[i]?).bind Task.language? = none) {p' : WarmPool}
    (hp : s'.pools[i]? = some p') : ∃ p, s.pools[i]? = some p ∧ p'.idle ⊆ p.idle := by
  cases h with
  | quiet _ _ _ pools _ _ => rw [pools] at hp; exact ⟨p', hp, fun _ hx => hx⟩
  | cancel _ _ _ pools _ _ => rw [pools] at hp; exact ⟨p', hp, fun _ hx => hx⟩
  | spawn _ _ _ shrinks _ _ _ _ => exact shrinks.idle hp
  | @signal k sig t t' found goes _ _ _ =>
    by_cases hik : i = k
    · subst hik
      refine goes.idle_subset (Or.inr ?_) hp
      rcases hi with hi | hi
      · exact absurd rfl hi
      · rwa [found] at hi
    · exact goes.idle_subset (Or.inl hik) hp
  | drop _ _ _ _ pools _ _ => rw [pools] at hp; exact ⟨p', hp, fun _ hx => hx⟩

theorem mem_callsOf {j k : ℕ} {t : Task} {call : Call} :
    (j, call) ∈ callsOf k t ↔ j = k ∧ t.call? = some call := by
  rw [callsOf, Option.mem_toList, Option.map_eq_some_iff]
  constructor
  · rintro ⟨_, hc, he⟩
    cases he
    exact ⟨rfl, hc⟩
  · rintro ⟨rfl, hc⟩
    exact ⟨call, hc, rfl⟩

/-- The engine is asked something only on the way into a state that asks for it. -/
theorem Turn.calls (h : Turn s s' e) : ∃ new, s'.calls = new ++ s.calls ∧
    ∀ {j call}, (j, call) ∈ new → ∃ t, s'.tasks[j]? = some t ∧ t.call? = some call := by
  cases h with
  | quiet _ _ _ _ _ calls => exact ⟨[], calls, fun hj => by cases hj⟩
  | cancel _ _ _ _ _ calls => exact ⟨[], calls, fun hj => by cases hj⟩
  | @spawn _ t _ _ _ _ _ tasks _ calls =>
    refine ⟨_, calls, fun hj => ?_⟩
    obtain ⟨rfl, hc⟩ := mem_callsOf.1 hj
    exact ⟨t, by rw [tasks, List.getElem?_concat_length], hc⟩
  | @signal k sig t t' found _ _ tasks calls =>
    refine ⟨_, calls, fun hj => ?_⟩
    obtain ⟨rfl, hc⟩ := mem_callsOf.1 hj
    exact ⟨t', by rw [tasks, List.getElem?_set_self (List.getElem?_eq_some_iff.1 found).1], hc⟩
  | @drop k t _ _ _ tasks _ _ calls =>
    refine ⟨_, calls, fun {j call} hj => ?_⟩
    obtain ⟨t', ht', hj⟩ := List.mem_flatMap.1 hj
    obtain ⟨rfl, hc⟩ := mem_callsOf.1 hj
    -- there is at most one task left to do
    have hone : t.remainder s.now = [t'] := by
      cases t with
      | run r => cases hl : r.stage.leased? <;> simp_all [Task.remainder]
      | _ => simp [Task.remainder] at ht'
    have hlen : (s.tasks.set k .over).length = s.tasks.length := List.length_set
    rw [tasks, hone, ← hlen, List.getElem?_concat_length]
    exact ⟨t', rfl, hc⟩

/-! ### Pools and upkeep tasks stay where they are -/

theorem bind_set {tasks : List Task} {t t' : Task} (hk : tasks[k]? = some t)
    (h : t'.language? = t.language?) (i : ℕ) :
    ((tasks.set k t')[i]?).bind Task.language? = (tasks[i]?).bind Task.language? := by
  rw [List.getElem?_set]
  split_ifs with hik hlt
  · subst hik
    rw [hk, Option.bind_some, Option.bind_some, h]
  · subst hik
    exact absurd (List.getElem?_eq_some_iff.1 hk).1 hlt
  · rfl

theorem bind_append {tasks more : List Task} (h : ∀ t ∈ more, t.language? = none) (i : ℕ) :
    ((tasks ++ more)[i]?).bind Task.language? = (tasks[i]?).bind Task.language? := by
  rcases Nat.lt_or_ge i tasks.length with hlt | hge
  · rw [List.getElem?_append_left hlt]
  · rw [List.getElem?_append_right hge, List.getElem?_eq_none hge, Option.bind_none]
    refine Option.bind_eq_none_iff.2 fun t ht => ?_
    rw [h t (List.mem_of_getElem? ht)]

theorem Laid.turn (hs : s.Laid) (h : Turn s s' e) : s'.Laid := by
  -- it is enough to look at the languages of tasks and pools
  suffices hh : s'.pools.map (·.language) = s.pools.map (·.language) ∧
      (∀ i : ℕ, (s'.tasks[i]?).bind Task.language? = (s.tasks[i]?).bind Task.language?) ∧
      ∀ p, Task.provision p ∉ s'.tasks by
    obtain ⟨hp, ht, hn⟩ := hh
    refine ⟨by rw [Distinct, hp]; exact hs.distinct, fun i => ?_, hn⟩
    rw [ht i, hs.matched i, ← List.getElem?_map, ← List.getElem?_map, hp]
  cases h with
  | quiet _ _ tasks pools _ _ => rw [tasks, pools]; exact ⟨rfl, fun _ => rfl, hs.no_provision⟩
  | cancel found _ tasks pools _ _ =>
    rw [tasks, pools]
    refine ⟨rfl, bind_set found rfl, fun p hp => ?_⟩
    rcases List.mem_or_eq_of_mem_set hp with hp | hp
    · exact hs.no_provision p hp
    · cases hp
  | @spawn _ t _ fresh _ shrinks _ tasks _ _ =>
    rw [tasks]
    refine ⟨shrinks.languages, bind_append fun t' ht' => ?_, fun p hp => ?_⟩
    · rw [List.mem_singleton.1 ht']
      rcases fresh with hr | rfl
      · cases t <;> first | rfl | cases hr
      · rfl
    · rcases List.mem_append.1 hp with hp | hp
      · exact hs.no_provision p hp
      · rcases fresh with hr | rfl
        · rw [← List.mem_singleton.1 hp] at hr
          cases hr
        · cases List.mem_singleton.1 hp
  | signal found goes _ tasks _ =>
    rw [tasks]
    refine ⟨goes.passes.languages, bind_set found goes.passes.language, fun p hp => ?_⟩
    rcases List.mem_or_eq_of_mem_set hp with hp | hp
    · exact hs.no_provision p hp
    · exact goes.not_provision p hp.symm
  | @drop k t found kind _ tasks pools _ _ =>
    rw [tasks, pools]
    refine ⟨rfl, fun i => ?_, fun p hp => ?_⟩
    · rw [bind_append fun t' ht' => by obtain ⟨r, rfl⟩ := t.mem_remainder ht'; rfl]
      refine bind_set found ?_ i
      rcases kind with hr | ⟨c, rfl⟩
      · cases t <;> first | rfl | cases hr
      · rfl
    · rcases List.mem_append.1 hp with hp | hp
      · rcases List.mem_or_eq_of_mem_set hp with hp | hp
        · exact hs.no_provision p hp
        · cases hp
      · obtain ⟨r, hr⟩ := t.mem_remainder hp
        cases hr

/-! ### Sequences of events -/

theorem after?_append (s : Supervisor) (es es' : List Event) :
    s.after? (es ++ es') = (s.after? es).bind (·.after? es') := by
  induction es generalizing s with
  | nil => rfl
  | cons e es ih =>
    rw [List.cons_append, after?_cons, after?_cons]
    cases s.step e with
    | none => rfl
    | some s' => exact ih s'

/-- A supervisor after some events and one more. -/
theorem after?_concat_eq_some {s₀ : Supervisor} {es : List Event} :
    s₀.after? (es ++ [e]) = some s' ↔ ∃ s, s₀.after? es = some s ∧ s.step e = some s' := by
  rw [after?_append, Option.bind_eq_some_iff]
  refine exists_congr fun s => and_congr_right fun _ => ?_
  rw [after?_cons]
  cases s.step e <;> simp

/-- **What every turn preserves holds after any ordinary events.** -/
theorem after?_induction (ok : Event → Prop) (P : List Event → Supervisor → Prop) {s₀ : Supervisor}
    (ordinary : ∀ {e}, ok e → e.Ordinary) (laid : s₀.Laid) (start : P [] s₀)
    (turn : ∀ {es s e s'}, s.Laid → s₀.after? es = some s → P es s → ok e → s.step e = some s' →
      Turn s s' e → P (es ++ [e]) s')
    {es : List Event} (hes : ∀ e ∈ es, ok e) (h : s₀.after? es = some s) : s.Laid ∧ P es s := by
  induction es using List.reverseRecOn generalizing s with
  | nil =>
    cases h
    exact ⟨laid, start⟩
  | append_singleton es e ih =>
    obtain ⟨s₁, h₁, h₂⟩ := after?_concat_eq_some.1 h
    obtain ⟨hl, hP⟩ := ih (fun e' he' => hes e' (List.mem_append_left _ he')) h₁
    have he := hes e (by simp)
    have ht := turn_of_step hl (ordinary he) h₂
    exact ⟨hl.turn ht, turn hl h₁ hP he h₂ ht⟩

end Supervisor

end Isolate
