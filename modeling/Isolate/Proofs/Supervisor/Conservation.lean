import Isolate.Proofs.Supervisor.Keeping

/-!
# Containers are conserved

As long as nobody drops a run or a closing, every container that was created is in one place: it is
being provided, it is idle in a pool, a run has it, it waits for its removal or the engine was asked
to remove it. Once all runs are done and the pools are stopped, the engine was asked to remove each
container, and it was asked once.

* `Turn.inventory`: what an event adds to the inventory is what it creates;
* `containers_conserved`: the inventory is made of the containers that were created, each once;
* `AtRest`, `AtRest.inventory`: nothing is left but what was removed.
-/

namespace Isolate

/-- Ordinary, and nobody drops a run or a closing. -/
def Event.Patient (e : Event) : Prop := e.Ordinary ∧ ∀ k, e ≠ .drop k

theorem Event.created?_eq_none {e : Event} (h : e.task? = none) : e.created? = none := by
  unfold created?
  split
  · cases h
  · rfl

theorem created_concat (es : List Event) (e : Event) :
    created (es ++ [e]) = created es ++ e.created?.toList := by
  unfold created
  cases h : e.created? <;> simp [List.filterMap_append, h]

namespace Supervisor

variable {s s' : Supervisor} {e : Event}

/-! ### The inventory -/

theorem count_flatMap_append {α β : Type} [DecidableEq β] (f g : α → List β) (x : β) (l : List α) :
    (l.flatMap fun a => f a ++ g a).count x = (l.flatMap f).count x + (l.flatMap g).count x := by
  induction l with
  | nil => rfl
  | cons a l ih =>
    simp only [List.flatMap_cons, List.count_append] at ih ⊢
    omega

/-- The containers that are idle, provided or used, or wait for their removal. -/
def held (s : Supervisor) : List ContainerId := s.idle ++ s.tasks.flatMap Task.holding

theorem count_held (s : Supervisor) (id : ContainerId) :
    s.held.count id = s.idle.count id + (s.tasks.flatMap Task.holding).count id := by
  rw [held, List.count_append]

/-- The inventory is what is held and what was removed. -/
theorem count_inventory (s : Supervisor) (id : ContainerId) :
    s.inventory.count id = s.held.count id + s.removed.count id := by
  have h : Task.holding = fun t => t.starting ++ t.leased ++ t.waiting := rfl
  rw [count_held, h, count_flatMap_append, count_flatMap_append]
  simp only [inventory, starting, leased, waiting, List.count_append]
  omega

/-- The calls recorded for a task ask for the removal that it waits for. -/
theorem removed_callsOf (k : ℕ) (t : Task) :
    (callsOf k t).filterMap (fun c => c.2.removed?) = t.removing := by
  unfold callsOf Task.removing
  cases t.call? with
  | none => rfl
  | some call => cases h : call.removed? <;> simp [h]

/-- **What comes into the inventory is what is created.** -/
theorem Turn.inventory (h : Turn s s' e) (hd : ∀ k, e ≠ .drop k) (id : ContainerId) :
    s'.inventory.count id = s.inventory.count id + e.created?.toList.count id := by
  rw [count_inventory, count_inventory, count_held, count_held]
  cases h with
  | quiet aside _ tasks pools _ calls =>
    simp only [idle, removed, tasks, pools, calls, Event.created?_eq_none aside, Option.toList_none,
      List.count_nil, Nat.add_zero]
  | @cancel k r found _ tasks pools _ calls =>
    have hh := count_flatMap_set Task.holding id (.run { r with cancelled := true }) found
    have hr : (Task.run { r with cancelled := true }).holding = (Task.run r).holding := rfl
    have hc : Event.created? (.cancel k) = none := rfl
    rw [hr] at hh
    simp only [idle, removed, tasks, pools, calls, hc, Option.toList_none, List.count_nil]
    omega
  | @spawn _ t aside _ _ _ balance tasks _ calls =>
    have hb := balance id
    rw [Task.inHand, List.count_append] at hb
    simp only [removed, tasks, calls, Event.created?_eq_none aside, Option.toList_none,
      List.count_nil, List.flatMap_append, List.flatMap_singleton, List.count_append,
      List.filterMap_append, removed_callsOf]
    omega
  | @signal k sig t t' found goes _ tasks calls =>
    have hh := count_flatMap_set Task.holding id t' found
    have hb := goes.passes.balance id
    rw [Task.inHand, List.count_append] at hb
    rw [Event.created?_signal]
    simp only [idle, removed, tasks, calls, List.filterMap_append, List.count_append,
      removed_callsOf]
    omega
  | drop _ _ _ _ _ _ _ => exact absurd rfl (hd _)

theorem idle_start {c : Config} {epoch : ℕ} (h : start? c epoch = some s) : s.idle = [] := by
  rw [start?_eq_some h]
  refine List.flatMap_eq_nil_iff.2 fun p hp => ?_
  obtain ⟨u, _, rfl⟩ := List.mem_map.1 hp
  rfl

/-- The upkeep tasks start with empty hands. -/
theorem inHand_start {c : Config} {epoch : ℕ} (h : start? c epoch = some s) {t : Task}
    (ht : t ∈ s.tasks) : t.inHand = [] := by
  rw [start?_eq_some h] at ht
  obtain ⟨u, hu, rfl⟩ := List.mem_map.1 ht
  obtain ⟨p, _, hp⟩ := mem_keepers hu
  rw [hp]
  rfl

theorem count_inventory_start {c : Config} {epoch : ℕ} (h : start? c epoch = some s)
    (id : ContainerId) : s.inventory.count id = 0 := by
  have hh : s.tasks.flatMap Task.holding = [] := List.flatMap_eq_nil_iff.2 fun t ht =>
    (List.append_eq_nil_iff.1 (inHand_start h ht)).1
  have hr : s.removed = [] := by rw [start?_eq_some h]; rfl
  rw [count_inventory, count_held, hh, idle_start h, hr]
  rfl

/-! ### At rest -/

/-- All runs are done, and the pools were stopped by closings that have all ended. -/
structure AtRest (s : Supervisor) : Prop where
  runs : ∀ r, Task.run r ∈ s.tasks → ∃ result, r.stage = .done result
  closed : ∃ c, Task.closing c ∈ s.tasks
  closings : ∀ c, Task.closing c ∈ s.tasks → c = .ended

/-- At rest every upkeep task has ended. -/
theorem AtRest.upkeeps (hr : s.AtRest) (ha : s.Attended) {k : ℕ} {u : Upkeep}
    (h : s.tasks[k]? = some (.upkeep u)) : u.hasEnded = true := by
  refine (ha.waited h).resolve_right fun hp => ?_
  rcases mem_pending.1 hp with hu | ⟨j, t, ht, hj⟩
  · obtain ⟨c, hc⟩ := hr.closed
    obtain ⟨j, hj⟩ := List.mem_iff_getElem?.1 hc
    obtain rfl := hr.closings c hc
    rw [ha.gathered hj rfl] at hu
    cases hu
  · cases t with
    | closing c =>
      obtain rfl := hr.closings c (List.mem_of_getElem? ht)
      cases hj
    | _ => cases hj

/-- At rest nobody holds a container. -/
theorem AtRest.holding (hs : s.Laid) (hr : s.AtRest) (ha : s.Attended) {t : Task}
    (h : t ∈ s.tasks) : t.holding = [] := by
  cases t with
  | run r =>
    obtain ⟨result, hd⟩ := hr.runs r h
    rw [Run.holding_eq, hd]
    rfl
  | upkeep u =>
    obtain ⟨k, hk⟩ := List.mem_iff_getElem?.1 h
    have he := hr.upkeeps ha hk
    rw [Upkeep.holding_eq]
    rw [Upkeep.point_of_hasEnded he]
    rfl
  | closing c =>
    obtain rfl := hr.closings c h
    rfl
  | provision p => exact absurd h (hs.no_provision p)
  | _ => rfl

theorem AtRest.idle (hs : s.Laid) (hr : s.AtRest) (ha : s.Attended) {p : WarmPool}
    (h : p ∈ s.pools) : p.idle = [] := by
  obtain ⟨i, hi⟩ := List.mem_iff_getElem?.1 h
  obtain ⟨u, hu, _⟩ := hs.kept hi
  exact ha.emptied hu (Upkeep.hasLeft_of_hasEnded (hr.upkeeps ha hu)) hi

/-- At rest everything in the inventory was removed. -/
theorem AtRest.inventory (hs : s.Laid) (hr : s.AtRest) (ha : s.Attended) :
    s.inventory.Perm s.removed := by
  rw [List.perm_iff_count]
  intro id
  have hh : s.tasks.flatMap Task.holding = [] :=
    List.flatMap_eq_nil_iff.2 fun t ht => hr.holding hs ha ht
  have hi : s.idle = [] := List.flatMap_eq_nil_iff.2 fun p hp => hr.idle hs ha hp
  rw [count_inventory, count_held, hh, hi]
  exact Nat.zero_add _

/-! ### The main statement -/

/-- **Containers are conserved.** If no two containers that the engine creates are the same, then
after any events that can happen, among which nobody drops a run or a closing, the inventory is made
of the containers created so far, none of them is in two places and none was removed twice. Once all
runs are done and the closings have ended, the engine was asked to remove precisely what it had
created. -/
theorem containers_conserved {c : Config} {epoch : ℕ} {s₀ s : Supervisor} {es : List Event}
    (start : start? c epoch = some s₀) (patient : ∀ e ∈ es, e.Patient) (fresh : (created es).Nodup)
    (after : s₀.after? es = some s) :
    s.inventory.Perm (created es) ∧ s.inventory.Nodup ∧ s.removed.Nodup ∧
      (s.AtRest → ∀ id, id ∈ s.removed ↔ id ∈ created es) := by
  -- every event adds to the inventory what it creates, and leaves nobody unattended
  obtain ⟨hl, ha, hp⟩ := after?_induction Event.Patient
    (fun es s => s.Attended ∧ ∀ id, s.inventory.count id = (created es).count id) And.left
    (laid_start start) ⟨attended_start start, fun id => count_inventory_start start id⟩
    (fun hl _ hP he _ ht => ⟨hP.1.turn hl ht he.2, fun id => by
      rw [ht.inventory he.2, hP.2, created_concat, List.count_append]⟩) patient after
  have hperm : s.inventory.Perm (created es) := List.perm_iff_count.2 hp
  have hnodup : s.inventory.Nodup := hperm.nodup_iff.2 fresh
  refine ⟨hperm, hnodup, ?_, fun hr id => ?_⟩
  · exact (List.nodup_append.1 hnodup).2.1
  · rw [← hperm.mem_iff]
    exact (hr.inventory hl ha).mem_iff.symm

/-- A container is provided, stored, used and removed, and the pools are stopped meanwhile. -/
def oneLife : List Event :=
  [.advance 100, .signal 0 .timer, .signal 0 .proceed, .signal 0 (.reply (.created (.ok ⟨"a"⟩))),
    .signal 0 (.reply (.done (.ok ()))), .signal 0 .proceed, .signal 0 .proceed,
    .run (.ofCode "sh" "true") false, .signal 1 (.reply (.done (.ok ()))),
    .signal 1 (.reply (.opened (.ok ⟨"x"⟩))), .close, .signal 2 .proceed,
    .signal 1 (.reply .ended), .signal 1 (.reply (.code (.ok (some 0)))),
    .signal 1 (.reply (.done (.ok ()))), .signal 0 .notice, .signal 0 .proceed, .signal 2 .proceed,
    .signal 2 .proceed, .signal 2 .proceed, .signal 2 .proceed]

theorem containers_conserved_oneLife : ∃ s₀ s, start? .small 0 = some s₀ ∧
    s₀.after? oneLife = some s ∧ s.AtRest ∧ s.inventory.Perm (created oneLife) ∧
    ∀ id, id ∈ s.removed ↔ id ∈ created oneLife := by
  have patient : ∀ e ∈ oneLife, e.Patient := by simp [oneLife, Event.Patient, Event.Ordinary]
  have rest : ∃ s₀ s, start? .small 0 = some s₀ ∧ s₀.after? oneLife = some s ∧ s.AtRest := by
    refine ⟨_, _, rfl, rfl, ?_, ⟨.ended, .tail _ (.tail _ (.head _))⟩, ?_⟩
    · rintro r (_ | ⟨_, _ | ⟨_, _ | ⟨_, hr⟩⟩⟩)
      · exact ⟨_, rfl⟩
      · cases hr
    · rintro c (_ | ⟨_, _ | ⟨_, _ | ⟨_, hc⟩⟩⟩)
      · rfl
      · cases hc
  obtain ⟨s₀, s, start, after, rest⟩ := rest
  obtain ⟨perm, _, _, removed⟩ := containers_conserved start patient (by decide) after
  exact ⟨s₀, s, start, after, rest, perm, removed rest⟩

end Supervisor

end Isolate
