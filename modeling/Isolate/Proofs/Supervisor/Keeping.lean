import Isolate.Proofs.Supervisor.Turn

/-!
# What becomes of an upkeep task and its pool

Only an upkeep task puts containers into its pool, and it does not do so any more once it has begun
to empty the pool. An upkeep task that has not ended is waited for by somebody, or will be by the
first request to stop that comes that far.

* `Turn.upkeep`: what an event does to an upkeep task and its pool;
* `Attended`: the invariant, with `attended_start` and `Attended.turn`.
-/

namespace Isolate

/-- The task has taken over what was in its pool. -/
def Upkeep.hasLeft (u : Upkeep) : Bool :=
  match u.point with
  | .emptying _ _ => true
  | .ended => true
  | _ => false

theorem Upkeep.point_of_hasEnded {u : Upkeep} (h : u.hasEnded = true) : u.point = .ended := by
  unfold hasEnded at h
  split at h
  · assumption
  · cases h

theorem Upkeep.hasLeft_of_hasEnded {u : Upkeep} (h : u.hasEnded = true) : u.hasLeft = true := by
  rw [hasLeft, point_of_hasEnded h]

theorem Upkeep.step_of_hasEnded {settings : PoolSettings} {now : Instant} {stopping : Bool}
    {u : Upkeep} {pool : WarmPool} {sig : Signal} (h : u.hasEnded = true) :
    u.step settings now stopping pool sig = none := by
  rw [step, point_of_hasEnded h, Point.step_ended]
  rfl

/-- A task that has left its pool has found it empty or has emptied it. -/
theorem Upkeep.idle_of_hasLeft {settings : PoolSettings} {now : Instant} {stopping : Bool}
    {u u' : Upkeep} {pool pool' : WarmPool} {sig : Signal}
    (h : u.step settings now stopping pool sig = some (u', pool')) (hl : u'.hasLeft = true) :
    pool'.idle = [] ∨ (u.hasLeft = true ∧ pool' = pool) := by
  obtain ⟨point', rfl, hp⟩ := step_eq_some h
  obtain ⟨language, spec, point⟩ := u
  cases point with
  | polling wake => obtain ⟨_, ⟨_, _, rfl⟩ | ⟨_, _, rfl⟩⟩ := Point.step_polling hp <;> cases hl
  | checking => obtain ⟨_, _, ⟨_, ⟨_⟩ | ⟨_, _⟩⟩ | ⟨_, rfl⟩⟩ := Point.step_checking hp <;> cases hl
  | provisioning provision =>
    obtain ⟨_, ⟨_, _, rfl⟩ | ⟨_, _, rfl⟩ | ⟨_, _, ⟨_⟩ | ⟨_, _⟩⟩⟩ := Point.step_provisioning hp <;>
      cases hl
  | deciding id => obtain ⟨_, _, ⟨_, rfl⟩ | ⟨_, rfl⟩⟩ := Point.step_deciding hp <;> cases hl
  | storing id =>
    obtain ⟨_, ⟨_, ⟨_⟩ | ⟨_, _⟩⟩ | ⟨_, _, rfl⟩⟩ := Point.step_storing hp <;> cases hl
  | discarding removal last =>
    obtain ⟨_, _, ⟨_, rfl⟩ | ⟨_, ⟨_⟩ | ⟨_, _⟩⟩⟩ := Point.step_discarding hp <;> cases hl
  | backingOff wake =>
    obtain ⟨_, ⟨_, _, ⟨_⟩ | ⟨_, _⟩⟩ | ⟨_, _, rfl⟩⟩ := Point.step_backingOff hp <;> cases hl
  | leaving => exact Or.inl (by rw [(Point.step_leaving hp).2.1]; rfl)
  | emptying removal rest => exact Or.inr ⟨rfl, (Point.step_emptying hp).1⟩
  | ended => simp [Point.step_ended] at hp

/-- The upkeep tasks that a task waits for. -/
def Task.joins : Task → List ℕ
  | .closing c => c.joins
  | _ => []

namespace Supervisor

variable {s s' : Supervisor} {e : Event} {i k : ℕ} {sig : Signal}

/-- The upkeep tasks that somebody waits for or has yet to take over. -/
def pending (s : Supervisor) : List ℕ := s.unjoined ++ s.tasks.flatMap Task.joins

/-! ### One upkeep task -/

/-- An upkeep task goes on, or it stays as it is and nothing comes into its pool. -/
theorem Turn.upkeep (h : Turn s s' e) {u : Upkeep} (hu : s.tasks[i]? = some (.upkeep u)) :
    (s'.tasks[i]? = some (.upkeep u) ∧ ∀ {p'}, s'.pools[i]? = some p' →
        ∃ p, s.pools[i]? = some p ∧ p'.idle ⊆ p.idle) ∨
      (∃ sig u' pool pool', e = .signal i sig ∧ s.pools[i]? = some pool ∧
        u.step s.config.pool s.now s.stopping pool sig = some (u', pool') ∧
        s'.tasks[i]? = some (.upkeep u') ∧ s'.pools[i]? = some pool') := by
  rcases h.task hu with ⟨he, hi⟩ | ⟨_, hr, _⟩ | ⟨sig, t', rfl, goes, hi⟩ | ⟨_, hr | ⟨_, hc⟩, _⟩
  · exact Or.inl ⟨hi, fun hp => h.idle_subset (Or.inl he) hp⟩
  · cases hr
  · generalize s'.pools = pools', s'.unjoined = unjoined' at goes
    cases goes with
    | @upkeep u u' pool pool' hp h =>
      rw [List.getElem?_set_self (List.getElem?_eq_some_iff.1 hp).1]
      exact Or.inr ⟨sig, u', pool, pool', rfl, hp, h, hi, rfl⟩
  · cases hr
  · cases hc

/-- No upkeep task is begun after the start. -/
theorem Laid.upkeep_before (hs : s.Laid) (hs' : s'.Laid)
    (hp : s'.pools.map (·.language) = s.pools.map (·.language)) {u' : Upkeep}
    (h : s'.tasks[i]? = some (.upkeep u')) : ∃ u, s.tasks[i]? = some (.upkeep u) := by
  obtain ⟨pool', hi, _, _⟩ := hs'.keeper h
  have hm : (s.pools[i]?).map (·.language) = some pool'.language := by
    rw [← List.getElem?_map, ← hp, List.getElem?_map, hi, Option.map_some]
  obtain ⟨pool, hj, _⟩ := Option.map_eq_some_iff.1 hm
  obtain ⟨u, hu, _⟩ := hs.kept hj
  exact ⟨u, hu⟩

/-! ### All upkeep tasks -/

theorem mem_pending : i ∈ s.pending ↔
    i ∈ s.unjoined ∨ ∃ (j : ℕ) (t : Task), s.tasks[j]? = some t ∧ i ∈ t.joins := by
  rw [pending, List.mem_append, List.mem_flatMap]
  refine or_congr_right ⟨?_, ?_⟩
  · rintro ⟨t, ht, hi⟩
    obtain ⟨j, hj⟩ := List.mem_iff_getElem?.1 ht
    exact ⟨j, t, hj, hi⟩
  · rintro ⟨j, t, hj, hi⟩
    exact ⟨t, List.mem_of_getElem? hj, hi⟩

/-- An upkeep task is let go by the one who waits for it only once it has ended. -/
theorem Goes.pending {t t' : Task} {pools : List WarmPool} {unjoined : List ℕ}
    (h : s.Goes k sig t t' pools unjoined) (hi : i ∈ s.unjoined ∨ i ∈ t.joins) :
    (i ∈ unjoined ∨ i ∈ t'.joins) ∨ s.hasEnded i = true := by
  cases h with
  | run _ => exact Or.inl hi
  | upkeep _ _ => exact Or.inl hi
  | removal _ => exact Or.inl hi
  | gather _ => exact Or.inl (Or.inr (hi.resolve_right List.not_mem_nil))
  | sweep _ _ => exact Or.inl (Or.inl (hi.resolve_right List.not_mem_nil))
  | closing _ _ join _ _ =>
    rcases hi with hi | hi
    · exact Or.inl (Or.inl hi)
    · exact (join i hi).imp_left Or.inr

theorem Goes.unjoined {t t' : Task} {pools : List WarmPool} {unjoined : List ℕ}
    (h : s.Goes k sig t t' pools unjoined) : unjoined = s.unjoined ∨ unjoined = [] := by
  cases h <;> first | exact Or.inl rfl | exact Or.inr rfl

/-- Who is waited for is still waited for, unless somebody who waits is dropped. -/
theorem Turn.pending (h : Turn s s' e)
    (hd : ∀ {k t}, e = .drop k → s.tasks[k]? = some t → t.joins = []) (hi : i ∈ s.pending) :
    i ∈ s'.pending ∨ s.hasEnded i = true := by
  rw [mem_pending] at hi ⊢
  rcases hi with hi | ⟨j, t, ht, hi⟩
  · cases h with
    | quiet _ _ _ _ unjoined _ => exact Or.inl (Or.inl (unjoined ▸ hi))
    | cancel _ _ _ _ unjoined _ => exact Or.inl (Or.inl (unjoined ▸ hi))
    | spawn _ _ _ _ _ _ unjoined _ => exact Or.inl (Or.inl (unjoined ▸ hi))
    | @signal k sig t t' found goes _ tasks _ =>
      refine (goes.pending (Or.inl hi)).imp_left (Or.imp_right fun hi => ?_)
      refine ⟨k, t', ?_, hi⟩
      rw [tasks, List.getElem?_set_self (List.getElem?_eq_some_iff.1 found).1]
    | drop _ _ _ _ _ unjoined _ => exact Or.inl (Or.inl (unjoined ▸ hi))
  · rcases h.task ht with ⟨_, ht'⟩ | ⟨r, rfl, _⟩ | ⟨sig, t', _, goes, ht'⟩ | ⟨rfl, _⟩
    · exact Or.inl (Or.inr ⟨j, t, ht', hi⟩)
    · cases hi
    · exact (goes.pending (Or.inr hi)).imp_left (Or.imp_right fun hi => ⟨j, t', ht', hi⟩)
    · rw [hd rfl ht] at hi
      cases hi

/-- Every upkeep task has ended or is waited for, and those that have left their pools empty. -/
structure Attended (s : Supervisor) : Prop where
  waited : ∀ {k : ℕ} {u : Upkeep}, s.tasks[k]? = some (.upkeep u) →
    u.hasEnded = true ∨ k ∈ s.pending
  gathered : ∀ {j : ℕ} {c : Closing}, s.tasks[j]? = some (.closing c) → c.hasGathered = true →
    s.unjoined = []
  emptied : ∀ {k : ℕ} {u : Upkeep} {p : WarmPool}, s.tasks[k]? = some (.upkeep u) →
    u.hasLeft = true → s.pools[k]? = some p → p.idle = []

theorem attended_start {c : Config} {epoch : ℕ} (h : start? c epoch = some s) : s.Attended := by
  rw [start?_eq_some h]
  refine ⟨fun {k u} hk => Or.inr ?_, fun hj => ?_, fun _ _ hp => ?_⟩
  · have hlt := (List.getElem?_eq_some_iff.1 hk).1
    rw [List.length_map] at hlt
    exact List.mem_append_left _ (List.mem_range.2 hlt)
  · rw [List.getElem?_map] at hj
    obtain ⟨_, _, he⟩ := Option.map_eq_some_iff.1 hj
    cases he
  · rw [List.getElem?_map] at hp
    obtain ⟨_, _, rfl⟩ := Option.map_eq_some_iff.1 hp
    rfl

theorem hasEnded_upkeep {u : Upkeep} (h : s.tasks[k]? = some (.upkeep u)) :
    s.hasEnded k = u.hasEnded := by
  rw [hasEnded, h]

/-- A closing has taken over the upkeep tasks, or it was as far before. -/
theorem Turn.gathered (h : Turn s s' e) {j : ℕ} {c' : Closing}
    (hj : s'.tasks[j]? = some (.closing c')) (hc : c'.hasGathered = true) :
    s'.unjoined = [] ∨ s'.unjoined = s.unjoined ∧
      ∃ c, s.tasks[j]? = some (.closing c) ∧ c.hasGathered = true := by
  cases h with
  | quiet _ _ tasks _ unjoined _ => exact Or.inr ⟨unjoined, c', tasks ▸ hj, hc⟩
  | @cancel k r _ _ tasks _ unjoined _ =>
    rw [tasks, List.getElem?_set] at hj
    split_ifs at hj
    · cases hj
    · exact Or.inr ⟨unjoined, c', hj, hc⟩
  | spawn _ fresh _ _ _ tasks unjoined _ =>
    rw [tasks, List.getElem?_append] at hj
    split_ifs at hj
    · exact Or.inr ⟨unjoined, c', hj, hc⟩
    · obtain rfl := List.mem_singleton.1 (List.mem_of_getElem? hj)
      rcases fresh with hr | he
      · cases hr
      · cases he
        cases hc
  | @signal k sig t t' found goes _ tasks _ =>
    rw [tasks, List.getElem?_set] at hj
    split_ifs at hj with hkj
    · subst hkj
      obtain rfl := Option.some.inj hj
      generalize s'.pools = pools', s'.unjoined = unjoined' at goes
      cases goes with
      | gather _ => exact Or.inl rfl
      | sweep _ _ => exact Or.inr ⟨rfl, _, found, rfl⟩
      | closing _ _ _ gathered _ => exact Or.inr ⟨rfl, _, found, gathered ▸ hc⟩
    · rcases goes.unjoined with hu | hu
      · exact Or.inr ⟨hu, c', hj, hc⟩
      · exact Or.inl hu
  | @drop k t _ _ _ tasks _ unjoined _ =>
    rw [tasks, List.getElem?_append] at hj
    split_ifs at hj
    · rw [List.getElem?_set] at hj
      split_ifs at hj
      · cases hj
      · exact Or.inr ⟨unjoined, c', hj, hc⟩
    -- what a dropped task leaves behind is a removal
    · have ht := List.mem_of_getElem? hj
      cases t <;> simp [Task.remainder] at ht

/-- The pool of a task that has left it stays empty. -/
theorem Turn.emptied (hs : s.Laid) (h : Turn s s' e)
    (he : ∀ {u p}, s.tasks[k]? = some (.upkeep u) → u.hasLeft = true → s.pools[k]? = some p →
      p.idle = [])
    {u' : Upkeep} {p' : WarmPool} (hu' : s'.tasks[k]? = some (.upkeep u')) (hl : u'.hasLeft = true)
    (hp' : s'.pools[k]? = some p') : p'.idle = [] := by
  obtain ⟨u, hu⟩ := hs.upkeep_before (hs.turn h) h.languages hu'
  rcases h.upkeep hu with ⟨hsame, hpool⟩ | ⟨sig, u₁, pool, pool', _, hp, hstep, hu₁, hp₁⟩
  · obtain rfl : u' = u := by simpa [hu'] using hsame
    obtain ⟨p, hp, hsub⟩ := hpool hp'
    rw [he hu hl hp] at hsub
    exact List.subset_nil.1 hsub
  -- the task itself went on: it has emptied the pool, or left it as it was
  · obtain rfl : u' = u₁ := by simpa [hu'] using hu₁
    obtain rfl : p' = pool' := by simpa [hp'] using hp₁
    rcases Upkeep.idle_of_hasLeft hstep hl with hnil | ⟨hl', rfl⟩
    · exact hnil
    · exact he hu hl' hp

theorem Attended.turn_of_drop (hs : s.Laid) (ha : s.Attended) (h : Turn s s' e)
    (hd : ∀ {k t}, e = .drop k → s.tasks[k]? = some t → t.joins = []) : s'.Attended where
  waited := fun {k u'} hu' => by
    obtain ⟨u, hu⟩ := hs.upkeep_before (hs.turn h) h.languages hu'
    rcases h.upkeep hu with ⟨hsame, _⟩ | ⟨sig, u₁, pool, pool', _, _, hstep, hu₁, _⟩
    · obtain rfl : u' = u := by simpa [hu'] using hsame
      rcases ha.waited hu with he | hp
      · exact Or.inl he
      · rw [or_comm, ← hasEnded_upkeep hu]
        exact h.pending hd hp
    · -- whoever goes on has not ended
      refine Or.inr ?_
      have hne : u.hasEnded ≠ true := fun he => by simp [Upkeep.step_of_hasEnded he] at hstep
      refine (h.pending hd ((ha.waited hu).resolve_left hne)).resolve_right ?_
      rwa [hasEnded_upkeep hu]
  gathered := fun hj hc => by
    rcases h.gathered hj hc with hu | ⟨hu, c, hc, hg⟩
    · exact hu
    · rw [hu]
      exact ha.gathered hc hg
  emptied := h.emptied hs ha.emptied

theorem Attended.turn (hs : s.Laid) (ha : s.Attended) (h : Turn s s' e) (hd : ∀ k, e ≠ .drop k) :
    s'.Attended :=
  ha.turn_of_drop hs h fun he _ => absurd he (hd _)

end Supervisor

end Isolate
