import Isolate.Proofs.Supervisor.Conservation
import Isolate.Proofs.Supervisor.Hearing

/-!
# What an upkeep task supplies

Between the look at the pool and the moment at which a new container is stored, others may take
containers out of the pool any number of times. As only the upkeep task puts any in, there is still
room for the new one, and the task has provided no more than the pool holds and others have taken.

* `Supplied`: the invariant of one upkeep task and its pool, with what was provided and taken so far;
  `Supplied.step`, `Supplied.take`, `Supplied.drain`: what the task and others do to it;
* `provides`, `takes`, `collected`: what is provided for the pool of a language and taken from it in
  the course of events;
* `Tended`: the invariant of the supervisor until the sign to stop, with `Tended.step`;
* `pool_supplied`: the pool is neither overfilled nor oversupplied.
-/

namespace Isolate

/-! ### One upkeep task and its pool -/

namespace Upkeep.Point

/-- The task keeps its pool filled: it has no container to get rid of and is not on its way out. -/
def AtWork : Point → Prop
  | .discarding _ _ => False
  | .leaving => False
  | .emptying _ _ => False
  | .ended => False
  | _ => True

/-- The number of containers that are being provided or were provided and are not yet stored. -/
def inFlight : Point → ℕ
  | .provisioning _ => 1
  | .deciding _ => 1
  | .storing _ => 1
  | _ => 0

/-- The container that was provided and is not yet stored. -/
def unstored : Point → List ContainerId
  | .deciding id => [id]
  | .storing id => [id]
  | _ => []

/-- The container that a signal completes the provision of. -/
def provides (now : Instant) : Point → Signal → List ContainerId
  | .provisioning provision, sig =>
    match provision.step now sig with
    | some (.finished (.ok id)) => [id]
    | _ => []
  | _, _ => []

end Upkeep.Point

/-- An upkeep task at work and its pool of `n` places: there is room for what the task is providing,
and what it has provided was taken, is idle or is about to be stored, in this order. -/
structure Supplied (n : ℕ) (point : Upkeep.Point) (pool : WarmPool)
    (provided taken : List ContainerId) : Prop where
  capacity : pool.capacity = n
  atWork : point.AtWork
  room : pool.size + point.inFlight ≤ n
  balance : provided = taken ++ pool.idle ++ point.unstored

namespace Supplied

open Upkeep Upkeep.Point

variable {n : ℕ} {point point' : Upkeep.Point} {pool pool' : WarmPool}
  {provided taken : List ContainerId} {settings : PoolSettings} {spec : ContainerSpec}
  {now : Instant} {sig : Signal} {id : ContainerId}

/-- The pool takes in what the task is about to store. -/
theorem push_isSome (h : Supplied n point pool provided taken) (storing : point = .storing id) :
    (pool.push id).isSome = true := by
  have hroom : pool.size + 1 ≤ n := by
    subst storing
    exact h.room
  have hfull : ¬ pool.capacity ≤ pool.size := by
    rw [h.capacity]
    omega
  simp [WarmPool.push, WarmPool.isFull, hfull]

/-- **What an upkeep task does before the sign to stop keeps its pool supplied.** -/
theorem step (h : Supplied n point pool provided taken)
    (hstep : point.step settings spec now false pool sig = some (point', pool')) :
    Supplied n point' pool' (provided ++ point.provides now sig) taken := by
  obtain ⟨capacity, atWork, room, balance⟩ := h
  cases point with
  | polling wake =>
    obtain ⟨rfl, ⟨_, _, rfl⟩ | ⟨_, hstop, _⟩⟩ := step_polling hstep
    · exact ⟨capacity, trivial, room, by rw [balance]; exact List.append_nil _⟩
    · cases hstop
  | checking =>
    obtain ⟨rfl, _, ⟨_, hpoll⟩ | ⟨hfull, rfl⟩⟩ := step_checking hstep
    · obtain rfl := hpoll.running
      exact ⟨capacity, trivial, room, by rw [balance]; exact List.append_nil _⟩
    · -- the place for the new container is free, and nobody else will fill it
      have hlt : pool'.size < n := by simpa [WarmPool.isFull, capacity] using hfull
      exact ⟨capacity, trivial, hlt, by rw [balance]; exact List.append_nil _⟩
  | provisioning provision =>
    obtain ⟨rfl, ⟨p, hp, rfl⟩ | ⟨id, hp, rfl⟩ | ⟨e, hp, hwait⟩⟩ := step_provisioning hstep
    · exact ⟨capacity, trivial, room, by simp [provides, unstored, hp, balance]⟩
    · exact ⟨capacity, trivial, room, by simp [provides, unstored, hp, balance]⟩
    · obtain rfl := hwait.running
      refine ⟨capacity, trivial, Nat.le_of_succ_le room, ?_⟩
      simp [provides, unstored, hp, balance]
  | deciding id =>
    obtain ⟨rfl, _, ⟨hstop, _⟩ | ⟨_, rfl⟩⟩ := step_deciding hstep
    · cases hstop
    · exact ⟨capacity, trivial, room, by rw [balance]; exact List.append_nil _⟩
  | storing id =>
    have hsome := push_isSome ⟨capacity, atWork, room, balance⟩ rfl
    obtain ⟨_, ⟨hpush, hpoll⟩ | ⟨hpush, _⟩⟩ := step_storing hstep
    · obtain rfl := WarmPool.push_eq_some hpush
      obtain rfl := hpoll.running
      refine ⟨capacity, trivial, ?_, ?_⟩
      · rw [WarmPool.size, List.length_append]
        exact room
      · simp [provides, unstored, balance]
    · rw [hpush] at hsome
      cases hsome
  | backingOff wake =>
    obtain ⟨rfl, ⟨_, _, hpoll⟩ | ⟨_, hstop, _⟩⟩ := step_backingOff hstep
    · obtain rfl := hpoll.running
      exact ⟨capacity, trivial, room, by rw [balance]; exact List.append_nil _⟩
    · cases hstop
  | _ => exact atWork.elim

/-- Whoever takes the container that waited longest leaves no less room. -/
theorem take (h : Supplied n point pool provided taken) :
    Supplied n point pool.take.2 provided (taken ++ pool.take.1.toList) := by
  obtain ⟨capacity, atWork, room, balance⟩ := h
  refine ⟨capacity, atWork, ?_, ?_⟩
  · have : pool.take.2.size ≤ pool.size := by simp [WarmPool.size]
    omega
  · have hidle : pool.take.1.toList ++ pool.take.2.idle = pool.idle := by
      unfold WarmPool.take
      cases pool.idle <;> rfl
    rw [balance, List.append_assoc taken pool.take.1.toList, hidle]

/-- Whoever takes everything leaves no less room. -/
theorem drain (h : Supplied n point pool provided taken) :
    Supplied n point pool.drain.2 provided (taken ++ pool.drain.1) := by
  obtain ⟨capacity, atWork, room, balance⟩ := h
  refine ⟨capacity, atWork, ?_, ?_⟩
  · have : pool.drain.2.size ≤ pool.size := Nat.zero_le _
    omega
  · rw [balance, WarmPool.drain_fst, WarmPool.idle_drain, List.append_nil]

/-- No more is provided than the pool has places for and others have taken. -/
theorem length_provided (h : Supplied n point pool provided taken) :
    provided.length = pool.size + taken.length + point.unstored.length ∧
      provided.length ≤ n + taken.length := by
  have hlength : provided.length = pool.size + taken.length + point.unstored.length := by
    rw [h.balance, List.length_append, List.length_append, WarmPool.size]
    omega
  have hunstored : point.unstored.length ≤ point.inFlight := by
    cases point <;> simp [unstored, inFlight]
  have := h.room
  exact ⟨hlength, by omega⟩

end Supplied

namespace Supervisor

variable {s s' s₀ : Supervisor} {e : Event} {es : List Event} {language : String} {i j k : ℕ}
  {sig : Signal}

/-! ### What is provided and taken -/

/-- The container that an event completes the provision of, by the upkeep task of a language. -/
def provides (language : String) (s : Supervisor) : Event → List ContainerId
  | .signal k sig =>
    match s.tasks[k]? with
    | some (.upkeep u) => if u.language = language then u.point.provides s.now sig else []
    | _ => []
  | _ => []

/-- The containers that an event takes out of the pool of a language: a run or another caller takes
the one that waited longest, or a caller takes all. -/
def takes (language : String) (s : Supervisor) : Event → List ContainerId
  | .run request _ =>
    if request.language = language ∧ (s.config.job? request).any (·.takesIdle) then
      (s.takeIdle language).1.toList
    else []
  | .take l => if l = language then (s.takeIdle language).1.toList else []
  | .drain l => if l = language then (s.pool? language).elim [] (·.idle) else []
  | _ => []

/-- What the events bring one after the other. -/
def collected (f : Supervisor → Event → List ContainerId) : Supervisor → List Event →
    List ContainerId
  | _, [] => []
  | s, e :: es => f s e ++ match s.step e with
    | some s' => collected f s' es
    | none => []

theorem collected_concat (f : Supervisor → Event → List ContainerId)
    (after : s₀.after? es = some s) (e : Event) :
    collected f s₀ (es ++ [e]) = collected f s₀ es ++ f s e := by
  induction es generalizing s₀ with
  | nil =>
    cases after
    simp only [List.nil_append, collected]
    cases s.step e <;> exact List.append_nil _
  | cons d es ih =>
    rw [after?_cons] at after
    obtain ⟨s₁, hstep, hrest⟩ := Option.bind_eq_some_iff.1 after
    simp only [List.cons_append, collected, hstep, ih hrest, List.append_assoc]

/-! ### The pool of a language -/

@[simp] theorem pool?_goOn (k : ℕ) (t : Task) : (s.goOn k t).pool? language = s.pool? language := by
  rw [goOn_eq]
  rfl

@[simp] theorem pool?_spawn (t : Task) : (s.spawn t).pool? language = s.pool? language := by
  rw [spawn_eq]
  rfl

/-- A changed pool takes the place of the pool of its language. -/
theorem pool?_setPool (pool : WarmPool) : (s.setPool pool).pool? language =
    if pool.language = language then (s.pool? language).map fun _ => pool
    else s.pool? language := by
  unfold pool?
  simp only [setPool]
  induction s.pools with
  | nil => simp
  | cons p ps ih =>
    by_cases hp : p.language = pool.language
    · by_cases hl : pool.language = language
      · simp [hp, hl]
      · simpa [hp, hl] using ih
    · by_cases hl : p.language = language
      · have hne : pool.language ≠ language := fun h => hp (hl.trans h.symm)
        simp [hl, hne, hne.symm]
      · simpa [hp, hl] using ih

end Supervisor

/-- The task is no upkeep task of the language, and if it is a closing it has not yet begun. -/
def Task.StandsBy (language : String) : Task → Prop
  | .upkeep u => u.language ≠ language
  | .closing c => c = .signalling
  | _ => True

namespace Supervisor

variable {c : Config} {s s' s₀ : Supervisor} {e : Event} {es : List Event} {language : String}
  {i j k : ℕ} {sig : Signal} {provided taken taken' : List ContainerId} {t t' : Task}

/-! ### Until the sign to stop -/

theorem provides_of_standsBy (found : s.tasks[k]? = some t) (standsBy : t.StandsBy language) :
    provides language s (.signal k sig) = [] := by
  rw [provides, found]
  cases t with
  | upkeep u => exact if_neg standsBy
  | _ => rfl

/-- One upkeep task looks after the pool of a language and keeps it supplied; all other tasks stand
by. -/
structure Tended (c : Config) (language : String) (k : ℕ) (s : Supervisor)
    (provided taken : List ContainerId) : Prop where
  config : s.config = c
  others : ∀ {j t}, s.tasks[j]? = some t → j ≠ k → t.StandsBy language
  supplied : ∃ u pool, s.tasks[k]? = some (.upkeep u) ∧ u.language = language ∧
    s.pool? language = some pool ∧ Supplied c.pool.size.toNat u.point pool provided taken

namespace Tended

/-- An event that neither provides nor takes anything. -/
theorem quiet {new new' : List ContainerId} (h : Tended c language k s provided taken)
    (hnew : new = []) (hnew' : new' = []) :
    Tended c language k s (provided ++ new) (taken ++ new') := by
  rw [hnew, hnew', List.append_nil, List.append_nil]
  exact h

/-- The upkeep task of the language does not stand by. -/
theorem ne_of_standsBy (h : Tended c language k s provided taken) (found : s.tasks[j]? = some t)
    (standsBy : t.StandsBy language) : j ≠ k := by
  rintro rfl
  obtain ⟨u, pool, hu, hl, _⟩ := h.supplied
  cases hu.symm.trans found
  exact standsBy hl

/-- What becomes of another task. -/
theorem set (h : Tended c language k s provided taken) (found : s.tasks[j]? = some t)
    (before : t.StandsBy language) (after : t'.StandsBy language) :
    Tended c language k { s with tasks := s.tasks.set j t' } provided taken := by
  obtain ⟨u, pool, hu, hl, hpool, supplied⟩ := h.supplied
  have hjk := h.ne_of_standsBy found before
  refine ⟨h.config, fun {i t₁} hi hik => ?_, u, pool, (List.getElem?_set_ne hjk).trans hu, hl, hpool,
    supplied⟩
  dsimp only at hi
  rw [List.getElem?_set] at hi
  split_ifs at hi
  · cases hi
    exact after
  · exact h.others hi hik

theorem goOn (h : Tended c language k s provided taken) (found : s.tasks[j]? = some t)
    (before : t.StandsBy language) (after : t'.StandsBy language) :
    Tended c language k (s.goOn j t') provided taken := by
  obtain ⟨config, others, supplied⟩ := h.set found before after
  rw [goOn_eq]
  exact ⟨config, others, supplied⟩

/-- A new task. -/
theorem spawn (h : Tended c language k s provided taken) (standsBy : t.StandsBy language) :
    Tended c language k (s.spawn t) provided taken := by
  obtain ⟨u, pool, hu, hl, hpool, supplied⟩ := h.supplied
  have htasks : (s.spawn t).tasks = s.tasks ++ [t] := by rw [spawn_eq]
  refine ⟨by rw [spawn_eq]; exact h.config, fun {i t₁} hi hik => ?_, u, pool, ?_, hl,
    by rw [pool?_spawn, hpool], supplied⟩
  · rw [htasks, List.getElem?_append] at hi
    split_ifs at hi
    · exact h.others hi hik
    · rw [List.mem_singleton.1 (List.mem_of_getElem? hi)]
      exact standsBy
  · rw [htasks, List.getElem?_append_left (List.getElem?_eq_some_iff.1 hu).1, hu]

/-- Somebody changes the pool of the language. -/
theorem setPool (h : Tended c language k s provided taken) {pool pool' : WarmPool}
    (found : s.pool? language = some pool) (same : pool'.language = language)
    (supplied : ∀ {point}, Supplied c.pool.size.toNat point pool provided taken →
      Supplied c.pool.size.toNat point pool' provided taken') :
    Tended c language k (s.setPool pool') provided taken' := by
  obtain ⟨u, pool₁, hu, hl, hpool, hsupplied⟩ := h.supplied
  cases found.symm.trans hpool
  refine ⟨h.config, h.others, u, pool', hu, hl, ?_, supplied hsupplied⟩
  rw [pool?_setPool, if_pos same, found, Option.map_some]

/-- Somebody changes the pool of another language. -/
theorem setPool_of_ne (h : Tended c language k s provided taken) {pool : WarmPool}
    (other : pool.language ≠ language) :
    Tended c language k (s.setPool pool) provided taken := by
  obtain ⟨u, pool₁, hu, hl, hpool, supplied⟩ := h.supplied
  refine ⟨h.config, h.others, u, pool₁, hu, hl, ?_, supplied⟩
  rw [pool?_setPool, if_neg other, hpool]

/-- Somebody takes an idle container of whatever language. -/
theorem takeIdle (h : Tended c language k s provided taken) (l : String) :
    Tended c language k (s.takeIdle l).2 provided
      (taken ++ if l = language then (s.takeIdle language).1.toList else []) := by
  unfold Supervisor.takeIdle
  by_cases hl : l = language
  · subst hl
    rw [if_pos rfl]
    split
    · rename_i pool found
      exact h.setPool found (pool?_eq_some found).1 fun h => h.take
    · simpa using h
  · rw [if_neg hl, List.append_nil]
    split
    · rename_i pool found
      exact h.setPool_of_ne ((pool?_eq_some found).1 ▸ hl)
    · exact h

theorem beginRun (h : Tended c language k s provided taken) (request : Request) (cancelled : Bool) :
    Tended c language k (s.beginRun request cancelled) provided
      (taken ++ takes language s (.run request cancelled)) := by
  have standsBy : ∀ stage, (Task.run ⟨cancelled, stage⟩).StandsBy language := fun _ => trivial
  unfold Supervisor.beginRun takes
  cases hjob : s.config.job? request with
  | none => simpa [hjob] using h.spawn (standsBy _)
  | some job =>
    by_cases hidle : job.takesIdle = true
    · simpa [hjob, hidle] using (h.takeIdle request.language).spawn (standsBy _)
    · simpa [hjob, hidle] using h.spawn (standsBy _)

/-- The upkeep task of the language goes on itself. -/
theorem upkeep (h : Tended c language k s provided taken) (running : s.stopping = false)
    {u u' : Upkeep} {pool pool' : WarmPool} (found : s.tasks[k]? = some (.upkeep u))
    (hpool : s.pool? language = some pool)
    (hstep : u.step s.config.pool s.now s.stopping pool sig = some (u', pool')) :
    Tended c language k ((s.setPool pool').goOn k (.upkeep u'))
      (provided ++ u.point.provides s.now sig) taken := by
  obtain ⟨u₁, pool₁, hu, hl, hpool₁, supplied⟩ := h.supplied
  cases found.symm.trans hu
  cases hpool.symm.trans hpool₁
  have hpool' : pool'.language = language :=
    (Upkeep.language_step hstep).2.trans (pool?_eq_some hpool).1
  obtain ⟨point', rfl, hpoint⟩ := Upkeep.step_eq_some hstep
  rw [running] at hpoint
  have hlt : k < s.tasks.length := (List.getElem?_eq_some_iff.1 found).1
  have htasks : ((s.setPool pool').goOn k (.upkeep { u with point := point' })).tasks =
      s.tasks.set k (.upkeep { u with point := point' }) := by
    rw [goOn_eq]
    rfl
  refine ⟨by rw [goOn_eq]; exact h.config, fun {i t₁} hi hik => ?_,
    { u with point := point' }, pool', by rw [htasks, List.getElem?_set_self hlt], hl, ?_,
    supplied.step hpoint⟩
  · rw [htasks, List.getElem?_set_ne (Ne.symm hik)] at hi
    exact h.others hi hik
  · rw [pool?_goOn, pool?_setPool, if_pos hpool', hpool, Option.map_some]

theorem stepTask (h : Tended c language k s provided taken) (running : s'.stopping = false)
    (found : s.tasks[j]? = some t) (hstep : s.stepTask j t sig = some s') :
    Tended c language k s' (provided ++ provides language s (.signal j sig))
      (taken ++ takes language s (.signal j sig)) := by
  have running₀ := (moves_of_stepTask found hstep).2.running running
  by_cases hjk : j = k
  · subst hjk
    obtain ⟨u, pool, hu, hl, hpool, _⟩ := h.supplied
    cases hu.symm.trans found
    simp only [Supervisor.stepTask, hl, hpool] at hstep
    obtain ⟨⟨u', pool'⟩, hu', rfl⟩ := Option.map_eq_some_iff.1 hstep
    simpa [provides, takes, hu, hl] using h.upkeep running₀ hu hpool hu'
  · have standsBy := h.others found hjk
    have hnone : provides language s (.signal j sig) = [] := provides_of_standsBy found standsBy
    cases t with
    | run r =>
      obtain ⟨r', _, rfl⟩ := Option.map_eq_some_iff.1 hstep
      exact .quiet (h.goOn found standsBy trivial) hnone rfl
    | upkeep u =>
      simp only [Supervisor.stepTask] at hstep
      split at hstep
      · rename_i pool hpool
        obtain ⟨⟨u', pool'⟩, hu, rfl⟩ := Option.map_eq_some_iff.1 hstep
        obtain ⟨hl, hl'⟩ := Upkeep.language_step hu
        have hother : u'.language ≠ language := hl ▸ standsBy
        have hpool' : pool'.language ≠ language := by
          rw [hl', (pool?_eq_some hpool).1]
          exact standsBy
        exact .quiet ((h.setPool_of_ne hpool').goOn found standsBy hother) hnone rfl
      · cases hstep
    | closing c =>
      -- a closing that stands by goes no further without giving the sign
      cases standsBy
      obtain ⟨_, rfl⟩ := stepClosing_signalling hstep
      rw [goOn_eq] at running
      cases running
    | removal r =>
      simp only [Supervisor.stepTask] at hstep
      split at hstep <;> cases hstep
      · exact .quiet (h.goOn found trivial trivial) hnone rfl
      · exact .quiet (h.goOn found trivial trivial) hnone rfl
    | provision p =>
      simp only [Supervisor.stepTask] at hstep
      split at hstep <;> cases hstep
      · exact .quiet (h.goOn found trivial trivial) hnone rfl
      · exact .quiet (h.goOn found trivial trivial) hnone rfl
    | _ => cases hstep

theorem dropRun (h : Tended c language k s provided taken) {r : Run}
    (found : s.tasks[j]? = some (.run r)) :
    Tended c language k (s.dropRun j r) provided taken := by
  have hover : Tended c language k (s.goOn j .over) provided taken := h.goOn found trivial trivial
  unfold Supervisor.dropRun
  dsimp only
  split
  · exact hover.spawn trivial
  · exact hover

/-- **Whatever happens before the sign to stop, the pool stays supplied,** as long as nobody else
puts a container into it. -/
theorem step (h : Tended c language k s provided taken) (kept : ∀ id, e ≠ .push language id)
    (hstep : s.step e = some s') (running : s'.stopping = false) :
    Tended c language k s' (provided ++ provides language s e) (taken ++ takes language s e) := by
  cases e with
  | run request cancelled =>
    cases hstep
    simpa [provides] using h.beginRun request cancelled
  | close =>
    cases hstep
    exact .quiet (h.spawn rfl) rfl rfl
  | provision spec =>
    cases hstep
    exact .quiet (h.spawn trivial) rfl rfl
  | remove id =>
    cases hstep
    exact .quiet (h.spawn trivial) rfl rfl
  | abandon =>
    cases hstep
    cases running
  | cancel j =>
    simp only [Supervisor.step] at hstep
    split at hstep <;> cases hstep
    rename_i r found
    exact .quiet (h.set found trivial trivial) rfl rfl
  | drop j =>
    simp only [Supervisor.step] at hstep
    split at hstep <;> cases hstep
    · rename_i r found
      exact .quiet (h.dropRun found) rfl rfl
    · rename_i c found
      have hjk : j ≠ k := by
        rintro rfl
        obtain ⟨u, _, hu, _⟩ := h.supplied
        cases hu.symm.trans found
      exact .quiet (h.goOn found (h.others found hjk) trivial) rfl rfl
  | signal j sig =>
    simp only [Supervisor.step] at hstep
    split at hstep
    · exact h.stepTask running ‹_› hstep
    · cases hstep
  | advance moment =>
    simp only [Supervisor.step] at hstep
    split_ifs at hstep
    cases hstep
    exact .quiet ⟨h.config, h.others, h.supplied⟩ rfl rfl
  | push l id =>
    simp only [Supervisor.step] at hstep
    split at hstep
    · rename_i pool found
      obtain ⟨pool', hpush, rfl⟩ := Option.map_eq_some_iff.1 hstep
      obtain rfl := WarmPool.push_eq_some hpush
      obtain ⟨rfl, _⟩ := pool?_eq_some found
      exact .quiet (h.setPool_of_ne fun hl => kept id (hl ▸ rfl)) rfl rfl
    · cases hstep
  | take l =>
    simp only [Supervisor.step] at hstep
    split at hstep <;> cases hstep
    rename_i pool found
    simpa [provides, takes, Supervisor.takeIdle, found] using h.takeIdle l
  | drain l =>
    simp only [Supervisor.step] at hstep
    split at hstep <;> cases hstep
    rename_i pool found
    obtain ⟨hpool, _⟩ := pool?_eq_some found
    by_cases hl : l = language
    · subst hl
      have hdrained : pool.drain.2.language = l := hpool
      simpa [provides, takes, found] using h.setPool found hdrained fun h => h.drain
    · exact .quiet (h.setPool_of_ne (hpool ▸ hl)) rfl (if_neg hl)

end Tended

/-- An upkeep task is begun for every language that has a profile, if there are to be pools. -/
theorem exists_keeper {p : Profile} (size : c.pool.size ≠ 0) (known : c.profile? language = some p) :
    ∃ u ∈ keepers c, u.language = language := by
  refine ⟨.begin c.pool 0 language (p.containerSpec none), ?_, rfl⟩
  rw [keepers, if_neg size, List.mem_filterMap]
  refine ⟨language, ?_, by rw [known, Option.map_some]⟩
  rw [Config.ids, List.mem_eraseDups, List.mem_map]
  obtain ⟨before, after, hsplit, _⟩ := List.lookup_eq_some_iff.1 known
  exact ⟨(language, p), by rw [hsplit]; simp, rfl⟩

theorem tended_start {p : Profile} {epoch : ℕ} (start : start? c epoch = some s)
    (size : c.pool.size ≠ 0) (known : c.profile? language = some p) :
    ∃ k, Tended c language k s [] [] := by
  have laid := laid_start start
  obtain ⟨u, hu, rfl⟩ := exists_keeper size known
  obtain ⟨k, hk⟩ := List.mem_iff_getElem?.1 hu
  obtain ⟨_, _, hbegin⟩ := mem_keepers hu
  have hs := start?_eq_some start
  have hfound : s.tasks[k]? = some (.upkeep u) := by
    rw [hs, List.getElem?_map, hk, Option.map_some]
  obtain ⟨pool, hpool, hl, hpool?⟩ := laid.keeper hfound
  have hempty : pool = .empty u.language c.pool.size.toNat := by
    rw [hs, List.getElem?_map, hk, Option.map_some] at hpool
    exact (Option.some.inj hpool).symm
  refine ⟨k, by rw [hs], fun {j t} hj hjk => ?_, u, pool, hfound, rfl, hpool?, ?_⟩
  · obtain ⟨u', rfl⟩ : ∃ u', Task.upkeep u' = t := by
      rw [hs] at hj
      obtain ⟨u', _, hu'⟩ := List.mem_map.1 (List.mem_of_getElem? hj)
      exact ⟨u', hu'⟩
    obtain ⟨pool', hpool', hl', _⟩ := laid.keeper hj
    intro hsame
    exact hjk (laid.distinct.index_unique hpool' hpool (by rw [hl', hl, hsame]))
  · rw [hempty, hbegin]
    exact ⟨rfl, trivial, Nat.zero_le _, rfl⟩

theorem tended_after {p : Profile} {epoch : ℕ} (start : start? c epoch = some s₀)
    (size : c.pool.size ≠ 0) (known : c.profile? language = some p)
    (kept : ∀ id, Event.push language id ∉ es) (after : s₀.after? es = some s)
    (running : s.stopping = false) : ∃ k, Tended c language k s
      (collected (provides language) s₀ es) (collected (takes language) s₀ es) := by
  induction es using List.reverseRecOn generalizing s with
  | nil =>
    cases after
    exact tended_start start size known
  | append_singleton es e ih =>
    obtain ⟨s₁, hbefore, hstep⟩ := after?_concat_eq_some.1 after
    have hkept : ∀ id, Event.push language id ∉ es := fun id h =>
      kept id (List.mem_append_left _ h)
    obtain ⟨k, h⟩ := ih hkept hbefore ((moves_of_step hstep).2.running running)
    rw [collected_concat _ hbefore, collected_concat _ hbefore]
    exact ⟨k, h.step (fun id he => kept id (he ▸ by simp)) hstep running⟩

/-- **A pool is neither overfilled nor oversupplied.** Up to the sign to stop, whatever the engine
answers and however often others take containers out of the pool of a language, as long as only its
upkeep task puts any in: the pool and the container that the task is providing do not exceed the
places of the pool, what the task is about to store will be taken in, and what it has provided was
taken, is idle or is about to be stored. -/
theorem pool_supplied {p : Profile} {epoch : ℕ} (start : start? c epoch = some s₀)
    (size : c.pool.size ≠ 0) (known : c.profile? language = some p)
    (kept : ∀ id, Event.push language id ∉ es) (after : s₀.after? es = some s)
    (running : s.stopping = false) :
    ∃ (k : ℕ) (u : Upkeep) (pool : WarmPool), s.tasks[k]? = some (.upkeep u) ∧
      u.language = language ∧
      (∀ (j : ℕ) u', s.tasks[j]? = some (.upkeep u') → u'.language = language → j = k) ∧
      s.pool? language = some pool ∧
      u.point.inFlight ≤ 1 ∧ pool.size + u.point.inFlight ≤ c.pool.size.toNat ∧
      (∀ id, u.point = .storing id → (pool.push id).isSome) ∧
      collected (provides language) s₀ es =
        collected (takes language) s₀ es ++ pool.idle ++ u.point.unstored ∧
      (collected (provides language) s₀ es).length =
        pool.size + (collected (takes language) s₀ es).length + u.point.unstored.length ∧
      (collected (provides language) s₀ es).length ≤
        c.pool.size.toNat + (collected (takes language) s₀ es).length := by
  obtain ⟨k, h⟩ := tended_after start size known kept after running
  obtain ⟨u, pool, hu, hl, hpool, supplied⟩ := h.supplied
  have hone : u.point.inFlight ≤ 1 := by cases u.point <;> simp [Upkeep.Point.inFlight]
  obtain ⟨hlength, hbound⟩ := supplied.length_provided
  refine ⟨k, u, pool, hu, hl, fun j u' hj hl' => ?_, hpool, hone, supplied.room,
    fun _ => supplied.push_isSome, supplied.balance, hlength, hbound⟩
  by_contra hjk
  exact h.others hj hjk hl'

/-- A container is stored and taken by a run, and a second one is about to be stored. -/
def secondSupply : List Event :=
  [.advance 100, .signal 0 .timer, .signal 0 .proceed, .signal 0 (.reply (.created (.ok ⟨"a"⟩))),
    .signal 0 (.reply (.done (.ok ()))), .signal 0 .proceed, .signal 0 .proceed,
    .run (.ofCode "sh" "true") false, .advance 200, .signal 0 .timer, .signal 0 .proceed,
    .signal 0 (.reply (.created (.ok ⟨"b"⟩))), .signal 0 (.reply (.done (.ok ()))),
    .signal 0 .proceed]

theorem pool_supplied_secondSupply : ∃ s₀ s, start? .small 0 = some s₀ ∧
    s₀.after? secondSupply = some s ∧ s.stopping = false ∧
    collected (provides "sh") s₀ secondSupply = [⟨"a"⟩, ⟨"b"⟩] ∧
    collected (takes "sh") s₀ secondSupply = [⟨"a"⟩] ∧
    ∃ (k : ℕ) (u : Upkeep) (pool : WarmPool), s.tasks[k]? = some (.upkeep u) ∧
      s.pool? "sh" = some pool ∧ pool.size + u.point.inFlight ≤ 1 ∧
      pool.idle ++ u.point.unstored = [⟨"b"⟩] := by
  have run : ∃ s₀ s, start? .small 0 = some s₀ ∧ s₀.after? secondSupply = some s ∧
      s.stopping = false ∧ collected (provides "sh") s₀ secondSupply = [⟨"a"⟩, ⟨"b"⟩] ∧
      collected (takes "sh") s₀ secondSupply = [⟨"a"⟩] := ⟨_, _, rfl, rfl, rfl, rfl, rfl⟩
  have known : Config.small.profile? "sh" = some _ := rfl
  have kept : ∀ id, Event.push "sh" id ∉ secondSupply := by simp [secondSupply]
  obtain ⟨s₀, s, start, after, running, hprovided, htaken⟩ := run
  obtain ⟨k, u, pool, hu, _, _, hpool, _, room, _, balance, _⟩ :=
    pool_supplied start (by decide) known kept after running
  rw [hprovided, htaken, List.append_assoc] at balance
  exact ⟨s₀, s, start, after, running, hprovided, htaken, k, u, pool, hu, hpool, room,
    (List.cons.inj balance).2.symm⟩

end Supervisor

end Isolate
