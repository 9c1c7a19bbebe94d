import Isolate.Proofs.Supervisor.Charge

/-!
# Dropping a run

A run that is dropped while it has a container to itself leaves a removal behind, and nothing keeps
that removal from being carried out. A run that is dropped while it provides a container leaves
nothing behind: a container that was created for it is not removed by anybody.

* `Run.Stage.container?`: the container that exists on behalf of a run;
* `CarriesOut`, `Turn.carriesOut`: a removal that is carried out to its end;
* `removal_of_dropped_run`: which of the two it is depends on how far the run has come.
-/

namespace Isolate

namespace Run.Stage

/-- The run is providing a container. -/
def isProvisioning : Stage → Bool
  | .provisioning _ _ => true
  | _ => false

/-- The container that exists on behalf of a run. -/
def container? : Stage → Option ContainerId
  | .provisioning _ (.starting id) => some id
  | .provisioning _ (.undoing removal _) => some removal.id
  | stage => stage.leased?

theorem leased?_of_container? {stage : Stage} {id : ContainerId} (h : stage.container? = some id)
    (hp : stage.isProvisioning = false) : stage.leased? = some id := by
  cases stage with
  | provisioning job provision => cases hp
  | _ => exact h

theorem leased?_of_isProvisioning {stage : Stage} (h : stage.isProvisioning = true) :
    stage.leased? = none := by
  cases stage with
  | provisioning job provision => rfl
  | _ => cases h

end Run.Stage

/-- A run answers for the container that exists on its behalf. -/
theorem Run.inHand_of_container {r : Run} {id : ContainerId} (h : r.stage.container? = some id) :
    (Task.run r).inHand = [id] := by
  by_cases hp : r.stage.isProvisioning = true
  · obtain ⟨c, stage⟩ := r
    cases stage with
    | provisioning job provision =>
      cases provision with
      | creating spec => cases h
      | starting id' =>
        cases h
        rfl
      | undoing removal e =>
        cases h
        rfl
    | _ => cases hp
  · exact Run.inHand_of_leased (Stage.leased?_of_container? h (by simpa using hp))

namespace Supervisor

variable {s s' : Supervisor} {e : Event} {k n : ℕ} {r : Removal}

/-! ### Removals that are carried out -/

/-- The engine was asked for a removal, and a task waits for the answer until it comes or the
removal is given up; nobody waits longer than that. -/
structure CarriesOut (s : Supervisor) (n : ℕ) (r : Removal) : Prop where
  asked : (n, r.call) ∈ s.calls
  waits : (s.tasks[n]? = some (.removal r) ∧ s.now ≤ r.giveUpAt) ∨ s.tasks[n]? = some .over

/-- No time goes by beyond the moment that a task waits for. -/
theorem Turn.now_le (h : Turn s s' e) {t : Task} (ht : t ∈ s.tasks) {wake : Instant}
    (hw : t.wake? = some wake) (hn : s.now ≤ wake) : s'.now ≤ wake := by
  cases h with
  | quiet _ frame _ _ _ _ =>
    rcases frame.1 with he | hall
    · rw [he]
      exact hn
    · exact hall t ht wake hw
  | cancel _ frame _ _ _ _ => rwa [frame.1]
  | spawn _ _ frame _ _ _ _ _ => rwa [frame.1]
  | signal _ _ frame _ _ => rwa [frame.1]
  | drop _ _ frame _ _ _ _ => rwa [frame.1]

/-- **A removal is carried out whatever happens.** -/
theorem Turn.carriesOut (h : Turn s s' e) (hc : s.CarriesOut n r) : s'.CarriesOut n r := by
  constructor
  · obtain ⟨new, hnew, _⟩ := h.calls
    rw [hnew]
    exact List.mem_append_right _ hc.asked
  · rcases hc.waits with ⟨ht, hn⟩ | ht
    -- nobody cancels or drops a removal: it is waited for still, or it was answered or given up
    · have hn' := h.now_le (List.mem_of_getElem? ht) rfl hn
      rcases h.task ht with ⟨_, ht'⟩ | ⟨_, hr, _⟩ | ⟨_, t', _, goes, ht'⟩ | ⟨_, hk, _⟩
      · exact Or.inl ⟨ht', hn'⟩
      · cases hr
      · generalize s'.pools = pools', s'.unjoined = unjoined' at goes
        cases goes with
        | removal _ => exact Or.inr ht'
      · rcases hk with hk | ⟨_, hk⟩ <;> cases hk
    · rcases h.task ht with ⟨_, ht'⟩ | ⟨_, hr, _⟩ | ⟨_, t', _, goes, _⟩ | ⟨_, hk, _⟩
      · exact Or.inr ht'
      · cases hr
      · cases goes
      · rcases hk with hk | ⟨_, hk⟩ <;> cases hk

theorem CarriesOut.after (hs : s.Laid) (hc : s.CarriesOut n r) {es : List Event}
    (ordinary : ∀ e ∈ es, e.Ordinary) (after : s.after? es = some s') : s'.CarriesOut n r :=
  (after?_induction Event.Ordinary (fun _ s => s.CarriesOut n r) (fun h => h) hs hc
    (fun _ _ hP _ _ ht => ht.carriesOut hP) ordinary after).2

/-- Once its time is over a removal is over. -/
theorem CarriesOut.over (hc : s.CarriesOut n r) (h : r.giveUpAt < s.now) :
    s.tasks[n]? = some .over := by
  rcases hc.waits with ⟨_, hn⟩ | ht
  · exact absurd h (Nat.not_lt.2 hn)
  · exact ht

/-! ### Drops -/

theorem drop_eq {r : Run} (found : s.tasks[k]? = some (.run r)) (h : s.step (.drop k) = some s') :
    s' = { s with
      tasks := s.tasks.set k .over ++ (Task.run r).remainder s.now
      calls := ((Task.run r).remainder s.now).flatMap (callsOf s.tasks.length) ++ s.calls } := by
  simp only [step, found, Option.some.injEq] at h
  rw [← h]
  unfold dropRun
  cases hl : r.stage.leased? with
  | none => simp [goOn_eq, Task.remainder, hl, callsOf, Task.call?]
  | some id => simp [goOn_eq, spawn_eq, Task.remainder, hl, callsOf, Task.call?]

/-- A run that has a container leaves its removal behind. -/
theorem carriesOut_of_drop {r : Run} {id : ContainerId} (found : s.tasks[k]? = some (.run r))
    (has : r.stage.leased? = some id) (h : s.step (.drop k) = some s') :
    s'.CarriesOut s.tasks.length (.begin s.now id) := by
  have hr : (Task.run r).remainder s.now = [.removal (.begin s.now id)] := by
    simp [Task.remainder, has]
  have hlen : (s.tasks.set k .over).length = s.tasks.length := List.length_set
  rw [drop_eq found h, hr]
  constructor
  · exact List.mem_append_left _ (List.mem_singleton.2 rfl)
  · refine Or.inl ⟨?_, Instant.le_after _ _⟩
    simp only
    rw [← hlen, List.getElem?_concat_length]

/-- A run that provides a container leaves it to nobody. -/
theorem inCharge_of_drop {r : Run} {id : ContainerId} (found : s.tasks[k]? = some (.run r))
    (has : r.stage.container? = some id) (hp : r.stage.isProvisioning = true)
    (hone : s.inCharge.count id ≤ 1) (h : s.step (.drop k) = some s') :
    s'.inCharge.count id = 0 ∧ s'.removed = s.removed := by
  have hr : (Task.run r).remainder s.now = [] := by
    simp [Task.remainder, Run.Stage.leased?_of_isProvisioning hp]
  have hh := count_flatMap_set Task.inHand id .over found
  rw [Run.inHand_of_container has, List.count_singleton_self] at hh
  have hz : (Task.over).inHand.count id = 0 := rfl
  rw [count_inCharge] at hone
  rw [drop_eq found h, hr]
  refine ⟨?_, rfl⟩
  rw [count_inCharge, List.append_nil]
  have hi : s.idle = s.pools.flatMap (·.idle) := rfl
  simp only [idle] at hone ⊢
  omega

/-- **What dropping a run does to its container.** Let a run be dropped on whose behalf a container
exists. If the run has the container to itself, a task of its own asks for the removal and carries
it out, whatever happens then: it is over once the removal is given up. If the run is still
providing the container, nobody is in charge of it any more and nobody ever asks for its removal
from then on; a container that was just being started has not been asked to be removed before
either. -/
theorem removal_of_dropped_run {c : Config} {epoch : ℕ} {s₀ s s' : Supervisor} {es : List Event}
    {r : Run}
    {id : ContainerId} (start : start? c epoch = some s₀) (ordinary : ∀ e ∈ es, e.Ordinary)
    (fresh : (created es).Nodup) (after : s₀.after? es = some s)
    (found : s.tasks[k]? = some (.run r)) (has : r.stage.container? = some id)
    (drop : s.step (.drop k) = some s') {es' : List Event} {s'' : Supervisor}
    (ordinary' : ∀ e ∈ es', e.Ordinary) (fresh' : id ∉ created es')
    (after' : s'.after? es' = some s'') :
    (r.stage.isProvisioning = false → s''.CarriesOut s.tasks.length (.begin s.now id) ∧
        (s.now.after Removal.patience < s''.now → s''.tasks[s.tasks.length]? = some .over)) ∧
      (r.stage.isProvisioning = true → s''.inCharge.count id = 0 ∧
        s''.removed.count id = s.removed.count id ∧
        ∀ job, r.stage = .provisioning job (.starting id) → id ∉ s''.removed) := by
  obtain ⟨laid, hcharge⟩ := inCharge_le_created start ordinary after
  have laid' : s'.Laid :=
    laid.turn (turn_of_step laid (show (Event.drop k).Ordinary from trivial) drop)
  constructor
  · intro hp
    have hc := carriesOut_of_drop found (Run.Stage.leased?_of_container? has hp) drop
    have hc' := hc.after laid' ordinary' after'
    exact ⟨hc', hc'.over⟩
  · intro hp
    have hone : s.inCharge.count id ≤ 1 :=
      le_trans (hcharge id) (List.nodup_iff_count_le_one.1 fresh id)
    obtain ⟨hz, hr⟩ := inCharge_of_drop found has hp hone drop
    obtain ⟨hz', hr'⟩ := forgotten laid' ordinary' hz fresh' after'
    rw [hr] at hr'
    refine ⟨hz', hr', fun job hs hid => ?_⟩
    -- what is held was not removed before
    have hrem : id ∈ s.removed := by
      rw [← List.count_pos_iff] at hid ⊢
      omega
    have hheld := held_of_removed start ordinary fresh after hrem
    have hle := count_le_count_flatMap Task.holding id found
    have hhold : (Task.run r).holding = [id] := by
      rw [Run.holding_eq, hs]
      rfl
    rw [count_held] at hheld
    rw [hhold, List.count_singleton_self] at hle
    omega

/-- A container is created for a run, and is to be started. -/
def startAlone : List Event :=
  [.run (.ofCode "sh" "true") false, .signal 1 (.reply (.created (.ok ⟨"a"⟩)))]

theorem removal_of_dropped_run_starting : ∃ s₀ s s' s'', start? .small 0 = some s₀ ∧
    s₀.after? startAlone = some s ∧ s.step (.drop 1) = some s' ∧
    s'.after? [.advance 50] = some s'' ∧ ⟨"a"⟩ ∈ created startAlone ∧ ⟨"a"⟩ ∉ s''.removed := by
  have hs : ∃ s₀ s s' s'' r, start? .small 0 = some s₀ ∧ s₀.after? startAlone = some s ∧
      s.tasks[1]? = some (.run r) ∧ (∃ job, r.stage = .provisioning job (.starting ⟨"a"⟩)) ∧
      s.step (.drop 1) = some s' ∧ s'.after? [.advance 50] = some s'' :=
    ⟨_, _, _, _, _, rfl, rfl, rfl, ⟨_, rfl⟩, rfl, rfl⟩
  obtain ⟨s₀, s, s', s'', r, start, after, found, ⟨job, stage⟩, drop, after'⟩ := hs
  have ordinary : ∀ e ∈ startAlone, e.Ordinary := by simp [startAlone, Event.Ordinary]
  have ordinary' : ∀ e ∈ [Event.advance 50], e.Ordinary := by simp [Event.Ordinary]
  have h := removal_of_dropped_run start ordinary (by decide) after found (by rw [stage]; rfl) drop
    ordinary' (by decide) after'
  exact ⟨s₀, s, s', s'', start, after, drop, after', by decide,
    (h.2 (by rw [stage]; rfl)).2.2 job stage⟩

end Supervisor

end Isolate
