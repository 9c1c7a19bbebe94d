import Isolate.Proofs.Pool
import Isolate.Proofs.Run.Stages
import Isolate.Supervisor.Upkeep

/-!
# What an upkeep task can be told

For each point of an upkeep task there is one statement that lists the signals it listens to, with
what becomes of the task and of its pool: `step_polling` to `step_emptying`. The task changes its
pool at two points only, where it stores a container and where it leaves. `step_eq_some` leads from
a step of the task to one of its point, and `pool_of_step` says what a step does to the pool.

Where the task begins to wait, `Polls` and `BacksOff` say what becomes of it: the sign to stop may
be there already. With `Polls.leaving` it is known that no look at the pool is waited for after the
sign.
-/

namespace Isolate

theorem Instant.after_ofMillis (t : Instant) (ms : UInt64) :
    t.after (.ofMillis ms) = t + ms.toNat := by
  have hround : (ms.toNat * 1000000 + (1000000 - 1)) / 1000000 = ms.toNat := by omega
  exact congrArg (t + ·) hround

namespace Upkeep

/-! ### Beginning to wait -/

/-- The wait for a moment has begun, or the sign to stop was there and the moment was not. -/
inductive Waits (now : Instant) (stopping : Bool) (wake : Instant) (waiting : Point) : Point → Prop
  | begun (due : stopping = true → wake ≤ now) : Waits now stopping wake waiting waiting
  | ended (sign : stopping = true) (early : now < wake) : Waits now stopping wake waiting .leaving

theorem waits_wait (now : Instant) (stopping : Bool) (wake : Instant) (waiting : Point) :
    Waits now stopping wake waiting (wait now stopping wake waiting) := by
  unfold wait
  split_ifs with h
  · exact .ended h.1 h.2
  · exact .begun fun sign => Nat.not_lt.1 fun early => h ⟨sign, early⟩

/-- The task waits for its next look at the pool, or leaves instead. -/
def Polls (settings : PoolSettings) (now : Instant) (stopping : Bool) : Point → Prop :=
  Waits now stopping (now.after (.ofMillis settings.pollInterval))
    (.polling (now.after (.ofMillis settings.pollInterval)))

/-- The task waits after a failure, or leaves instead. -/
def BacksOff (settings : PoolSettings) (now : Instant) (stopping : Bool) : Point → Prop :=
  Waits now stopping (now.after (.ofMillis settings.retryBackoff))
    (.backingOff (now.after (.ofMillis settings.retryBackoff)))

section

variable {settings : PoolSettings} {now : Instant} {stopping : Bool} {point : Point}

theorem polls_poll : Polls settings now stopping (poll settings now stopping) :=
  waits_wait _ _ _ _

theorem backsOff_backOff : BacksOff settings now stopping (backOff settings now stopping) :=
  waits_wait _ _ _ _

/-- Before the sign every wait begins. -/
theorem Polls.running (h : Polls settings now false point) :
    point = .polling (now.after (.ofMillis settings.pollInterval)) := by
  cases h with
  | begun _ => rfl
  | ended sign _ => cases sign

theorem BacksOff.running (h : BacksOff settings now false point) :
    point = .backingOff (now.after (.ofMillis settings.retryBackoff)) := by
  cases h with
  | begun _ => rfl
  | ended sign _ => cases sign

/-- **After the sign the task does not wait for its next look at the pool,** if the time between two
looks is not zero: it leaves. -/
theorem Polls.leaving (interval : settings.pollInterval ≠ 0) (h : Polls settings now true point) :
    point = .leaving := by
  cases h with
  | begun due =>
    have hpos : 0 < settings.pollInterval.toNat :=
      Nat.pos_of_ne_zero fun h => interval (UInt64.toNat_inj.1 h)
    have hle := due rfl
    rw [Instant.after_ofMillis] at hle
    exact absurd hle (Nat.not_le.2 (Nat.lt_add_of_pos_right hpos))
  | ended _ _ => rfl

end

/-! ### Signals -/

namespace Point

variable {settings : PoolSettings} {spec : ContainerSpec} {now : Instant} {stopping : Bool}
  {pool pool' : WarmPool} {point' : Point} {sig : Signal}

theorem step_polling {wake : Instant}
    (h : (polling wake).step settings spec now stopping pool sig = some (point', pool')) :
    pool' = pool ∧ ((sig = .timer ∧ wake ≤ now ∧ point' = .checking) ∨
      (sig = .notice ∧ stopping = true ∧ point' = .leaving)) := by
  simp only [step] at h
  split at h <;> simp_all

theorem step_checking
    (h : checking.step settings spec now stopping pool sig = some (point', pool')) :
    pool' = pool ∧ sig = .proceed ∧ ((pool.isFull = true ∧ Polls settings now stopping point') ∨
      (pool.isFull = false ∧ point' = .provisioning (.creating spec))) := by
  cases sig with
  | proceed =>
    simp only [step] at h
    split_ifs at h with hfull <;> cases h
    · exact ⟨rfl, rfl, Or.inl ⟨hfull, polls_poll⟩⟩
    · exact ⟨rfl, rfl, Or.inr ⟨Bool.eq_false_iff.2 hfull, rfl⟩⟩
  | _ => simp [step] at h

theorem step_provisioning {provision : Provision}
    (h : (provisioning provision).step settings spec now stopping pool sig = some (point', pool')) :
    pool' = pool ∧
      ((∃ p, provision.step now sig = some (.going p) ∧ point' = .provisioning p) ∨
        (∃ id, provision.step now sig = some (.finished (.ok id)) ∧ point' = .deciding id) ∨
        (∃ e, provision.step now sig = some (.finished (.error e)) ∧
          BacksOff settings now stopping point')) := by
  simp only [step] at h
  split at h <;> cases h
  · exact ⟨rfl, Or.inl ⟨_, ‹_›, rfl⟩⟩
  · exact ⟨rfl, Or.inr (Or.inl ⟨_, ‹_›, rfl⟩)⟩
  · exact ⟨rfl, Or.inr (Or.inr ⟨_, ‹_›, backsOff_backOff⟩)⟩

theorem step_deciding {id : ContainerId}
    (h : (deciding id).step settings spec now stopping pool sig = some (point', pool')) :
    pool' = pool ∧ sig = .proceed ∧
      ((stopping = true ∧ point' = .discarding (.begin now id) true) ∨
        (stopping = false ∧ point' = .storing id)) := by
  cases sig with
  | proceed =>
    simp only [step] at h
    split_ifs at h <;> simp_all
  | _ => simp [step] at h

/-- The container is stored, or discarded if the pool is full. -/
theorem step_storing {id : ContainerId}
    (h : (storing id).step settings spec now stopping pool sig = some (point', pool')) :
    sig = .proceed ∧ ((pool.push id = some pool' ∧ Polls settings now stopping point') ∨
      (pool.push id = none ∧ pool' = pool ∧ point' = .discarding (.begin now id) false)) := by
  cases sig with
  | proceed =>
    simp only [step] at h
    split at h <;> cases h
    · exact ⟨rfl, Or.inl ⟨‹_›, polls_poll⟩⟩
    · exact ⟨rfl, Or.inr ⟨‹_›, rfl, rfl⟩⟩
  | _ => simp [step] at h

theorem step_discarding {removal : Removal} {last : Bool}
    (h : (discarding removal last).step settings spec now stopping pool sig = some (point', pool')) :
    pool' = pool ∧ removal.step now sig = some (.finished ()) ∧
      ((last = true ∧ point' = .leaving) ∨
        (last = false ∧ Polls settings now stopping point')) := by
  simp only [step] at h
  cases hr : removal.step now sig with
  | none => simp [hr] at h
  | some r =>
    obtain ⟨rfl, _⟩ := Removal.step_eq_some hr
    simp only [hr] at h
    cases h
    cases last with
    | true => exact ⟨rfl, rfl, Or.inl ⟨rfl, rfl⟩⟩
    | false => exact ⟨rfl, rfl, Or.inr ⟨rfl, polls_poll⟩⟩

theorem step_backingOff {wake : Instant}
    (h : (backingOff wake).step settings spec now stopping pool sig = some (point', pool')) :
    pool' = pool ∧ ((sig = .timer ∧ wake ≤ now ∧ Polls settings now stopping point') ∨
      (sig = .notice ∧ stopping = true ∧ point' = .leaving)) := by
  cases sig with
  | timer =>
    simp only [step] at h
    split_ifs at h with hdue
    cases h
    exact ⟨rfl, Or.inl ⟨rfl, hdue, polls_poll⟩⟩
  | notice =>
    simp only [step] at h
    split_ifs at h with sign
    cases h
    exact ⟨rfl, Or.inr ⟨rfl, sign, rfl⟩⟩
  | _ => simp [step] at h

/-- On the way out the pool is emptied. -/
theorem step_leaving (h : leaving.step settings spec now stopping pool sig = some (point', pool')) :
    sig = .proceed ∧ pool' = pool.drain.2 ∧ point' = empty now pool.idle := by
  simp only [step] at h
  split at h <;> simp_all

theorem step_emptying {removal : Removal} {rest : List ContainerId}
    (h : (emptying removal rest).step settings spec now stopping pool sig = some (point', pool')) :
    pool' = pool ∧ removal.step now sig = some (.finished ()) ∧ point' = empty now rest := by
  simp only [step] at h
  cases hr : removal.step now sig with
  | none => simp [hr] at h
  | some r =>
    obtain ⟨rfl, _⟩ := Removal.step_eq_some hr
    simp_all

theorem step_ended : ended.step settings spec now stopping pool sig = none := by
  simp [step]

end Point

/-- A step leads an upkeep task to another point and changes nothing else about it. -/
theorem step_eq_some {settings : PoolSettings} {now : Instant} {stopping : Bool} {u u' : Upkeep}
    {pool pool' : WarmPool} {sig : Signal}
    (h : u.step settings now stopping pool sig = some (u', pool')) :
    ∃ point', u' = { u with point := point' } ∧
      u.point.step settings u.spec now stopping pool sig = some (point', pool') := by
  obtain ⟨⟨point', pool''⟩, hp, he⟩ := Option.map_eq_some_iff.1 h
  cases he
  exact ⟨point', rfl, hp⟩

/-- An upkeep task does nothing to its pool but one of the pool's operations. -/
theorem pool_of_step {settings : PoolSettings} {now : Instant} {stopping : Bool}
    {u u' : Upkeep} {pool pool' : WarmPool} {sig : Signal}
    (h : u.step settings now stopping pool sig = some (u', pool')) :
    pool' = pool ∨ ∃ op, pool' = (pool.perform op).2 := by
  obtain ⟨point', -, h⟩ := step_eq_some h
  cases hpoint : u.point with
  | polling wake => exact Or.inl (Point.step_polling (hpoint ▸ h)).1
  | checking => exact Or.inl (Point.step_checking (hpoint ▸ h)).1
  | provisioning provision => exact Or.inl (Point.step_provisioning (hpoint ▸ h)).1
  | deciding id => exact Or.inl (Point.step_deciding (hpoint ▸ h)).1
  | storing id =>
    obtain ⟨-, ⟨hpush, -⟩ | ⟨-, rfl, -⟩⟩ := Point.step_storing (hpoint ▸ h)
    · exact Or.inr ⟨.push id, by rw [WarmPool.perform, hpush]⟩
    · exact Or.inl rfl
  | discarding removal last => exact Or.inl (Point.step_discarding (hpoint ▸ h)).1
  | backingOff wake => exact Or.inl (Point.step_backingOff (hpoint ▸ h)).1
  | leaving => exact Or.inr ⟨.drain, (Point.step_leaving (hpoint ▸ h)).2.1⟩
  | emptying removal rest => exact Or.inl (Point.step_emptying (hpoint ▸ h)).1
  | ended =>
    rw [hpoint, Point.step_ended] at h
    cases h

end Upkeep

end Isolate
