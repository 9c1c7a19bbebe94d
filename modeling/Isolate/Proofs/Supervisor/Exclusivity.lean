import Isolate.Proofs.Supervisor.Provenance

/-!
# Exclusive use

Once a run has a container, nobody else will ever have it: the run hands it on to its removal, or
drops it, and neither puts anything into a pool.

* `SoleKeeper`, `Turn.soleKeeper`: the invariant, kept by every event;
* `sole_user`: no two runs have the same container, at whatever moments;
* `user_of_call`: only a run that has a container uploads to it and executes in it;
* `exclusive_use`: all of this for a run from its beginning, with what its container was created
  for.
-/

namespace Isolate

/-- The container that a call uses. -/
def Call.used? : Call → Option ContainerId
  | .upload id _ _ => some id
  | .exec id _ => some id
  | _ => none

theorem Provision.used?_call (p : Provision) : p.call.used? = none := by
  cases p <;> rfl

/-- Only a run that has a container uses it. -/
theorem Task.leased_of_used {t : Task} {call : Call} {id : ContainerId} (h : t.call? = some call)
    (hu : call.used? = some id) : ∃ r, t = .run r ∧ r.stage.leased? = some id := by
  cases t with
  | run r =>
    refine ⟨r, rfl, ?_⟩
    obtain ⟨c, stage⟩ := r
    cases stage with
    | provisioning job provision =>
      cases h
      rw [Provision.used?_call] at hu
      cases hu
    | uploading job id' archive =>
      cases h
      exact hu
    | executing x =>
      simp only [call?, Run.Stage.call?, Execution.call?] at h
      split at h <;> cases h
      · exact hu
      · cases hu
    | releasing removal result =>
      cases h
      cases hu
    | done result => cases h
  | upkeep u =>
    simp only [call?, Upkeep.Point.call?] at h
    split at h <;> cases h
    · rw [Provision.used?_call] at hu
      cases hu
    · cases hu
    · cases hu
  | closing c =>
    simp only [call?, Closing.call?] at h
    split at h <;> cases h
    cases hu
  | removal r =>
    cases h
    cases hu
  | provision p =>
    cases h
    rw [Provision.used?_call] at hu
    cases hu
  | provided result => cases h
  | _ => cases h

namespace Supervisor

variable {s₀ s s' : Supervisor} {e : Event} {es : List Event} {k : ℕ} {id : ContainerId}

/-- The run at place `k` has the container to itself. -/
def Has (s : Supervisor) (k : ℕ) (id : ContainerId) : Prop :=
  ∃ r, s.tasks[k]? = some (.run r) ∧ r.stage.leased? = some id

/-! ### Sole keepers -/

/-- A single task is in charge of the container, one that hands nothing to a pool, and if it is a
run it is the one at place `k`. -/
def SoleKeeper (s : Supervisor) (k : ℕ) (id : ContainerId) : Prop :=
  ∃ (m : ℕ) (t : Task), s.tasks[m]? = some t ∧ t.keeps = true ∧ (t.isRun = true → m = k) ∧
    s.inCharge.count id ≤ t.inHand.count id

/-- A run that has a container of which there is one is its sole keeper. -/
theorem soleKeeper_of_has (h : s.Has k id) (hone : s.inCharge.count id ≤ 1) :
    s.SoleKeeper k id := by
  obtain ⟨r, found, has⟩ := h
  refine ⟨k, .run r, found, rfl, fun _ => rfl, ?_⟩
  rw [Run.inHand_of_leased has, List.count_singleton_self]
  exact hone

theorem SoleKeeper.not_idle (h : s.SoleKeeper k id) : id ∉ s.idle := by
  obtain ⟨m, t, ht, _, _, hc⟩ := h
  have hle := count_le_count_flatMap Task.inHand id ht
  rw [count_inCharge] at hc
  rw [← List.count_eq_zero]
  omega

theorem SoleKeeper.eq_of_has (h : s.SoleKeeper k id) {j : ℕ} (hj : s.Has j id) : j = k := by
  obtain ⟨m, t, ht, _, hrun, hc⟩ := h
  obtain ⟨r, found, has⟩ := hj
  by_cases hjm : j = m
  · subst hjm
    rw [found] at ht
    cases ht
    exact hrun rfl
  · have hle := count_add_count_le Task.inHand id hjm found ht
    rw [Run.inHand_of_leased has, List.count_singleton_self] at hle
    rw [count_inCharge] at hc
    omega

/-- A task that is dropped leaves a container of which it was the sole keeper to its removal. -/
theorem soleKeeper_of_drop {m : ℕ} {t : Task} (ht : s.tasks[m]? = some t)
    (hc : s.inCharge.count id ≤ t.inHand.count id) (pools : s'.pools = s.pools)
    (tasks : s'.tasks = s.tasks.set m .over ++ t.remainder s.now) : s'.SoleKeeper k id := by
  have hlt : m < s.tasks.length := (List.getElem?_eq_some_iff.1 ht).1
  have hset := count_flatMap_set Task.inHand id .over ht
  have hz : (Task.over).inHand.count id = 0 := rfl
  have hlen : (s.tasks.set m .over).length = s.tasks.length := List.length_set
  have hidle : s'.idle = s.idle := by rw [idle, idle, pools]
  have hc' : s'.inCharge.count id ≤ ((t.remainder s.now).flatMap Task.inHand).count id := by
    rw [count_inCharge] at hc ⊢
    rw [hidle, tasks, List.flatMap_append, List.count_append]
    omega
  cases hr : t.remainder s.now with
  | nil =>
    refine ⟨m, .over, ?_, rfl, by rintro ⟨⟩, ?_⟩
    · rw [tasks, hr, List.append_nil, List.getElem?_set_self hlt]
    · rw [hr] at hc'
      exact hc'
  | cons t' rest =>
    obtain ⟨removal, rfl⟩ := t.mem_remainder (hr ▸ List.mem_cons_self)
    obtain rfl : rest = [] := by
      cases t with
      | run r => cases hl : r.stage.leased? <;> simp_all [Task.remainder]
      | _ => cases hr
    refine ⟨s.tasks.length, .removal removal, ?_, rfl, by rintro ⟨⟩, ?_⟩
    · rw [tasks, hr, ← hlen, List.getElem?_concat_length]
    · rw [hr] at hc'
      simpa using hc'

/-- **Every event leaves a container to its sole keeper,** or to the removal that comes after it. -/
theorem Turn.soleKeeper (h : Turn s s' e) (hs : s.SoleKeeper k id) (hborn : e.created? ≠ some id) :
    s'.SoleKeeper k id := by
  obtain ⟨m, t, ht, hkeeps, hrun, hc⟩ := hs
  have hlt : m < s.tasks.length := (List.getElem?_eq_some_iff.1 ht).1
  have hle : s'.inCharge.count id ≤ s.inCharge.count id := by
    have hzero : e.created?.toList.count id = 0 := by
      rw [List.count_eq_zero, Option.mem_toList]
      exact hborn
    have := h.inCharge id
    omega
  rcases h.task ht with ⟨_, ht'⟩ | ⟨r, rfl, _, ht'⟩ | ⟨sig, _, rfl, _, _⟩ | ⟨rfl, _, _⟩
  · exact ⟨m, t, ht', hkeeps, hrun, hle.trans hc⟩
  · exact ⟨m, _, ht', rfl, hrun, hle.trans hc⟩
  · cases h with
    | quiet aside _ _ _ _ _ => cases aside
    | spawn aside _ _ _ _ _ _ _ => cases aside
    | @signal _ _ u t' found goes _ tasks _ =>
      obtain rfl : u = t := Option.some.inj (found.symm.trans ht)
      obtain ⟨hkeeps', hpools⟩ := goes.passes.keeps hkeeps
      refine ⟨m, t', by rw [tasks, List.getElem?_set_self hlt], hkeeps',
        fun hr => hrun (goes.passes.isRun hr), ?_⟩
      have hset := count_flatMap_set Task.inHand id t' ht
      have hidle : s'.idle = s.idle := by rw [idle, idle, hpools]
      rw [count_inCharge] at hc ⊢
      rw [hidle, tasks]
      omega
  · cases h with
    | quiet aside _ _ _ _ _ => cases aside
    | spawn aside _ _ _ _ _ _ _ => cases aside
    | @drop _ u found _ _ tasks pools _ _ =>
      obtain rfl : u = t := Option.some.inj (found.symm.trans ht)
      exact soleKeeper_of_drop ht hc pools tasks

/-! ### Users at different moments -/

/-- The supervisor at some moment in a sequence of events. -/
def AtMoment (s₀ : Supervisor) (es pre : List Event) (s : Supervisor) : Prop :=
  pre <+: es ∧ s₀.after? pre = some s

theorem ordinary_of_moment {pre : List Event} (h : pre <+: es)
    (ordinary : ∀ e ∈ es, e.Ordinary) : ∀ e ∈ pre, e.Ordinary :=
  fun e he => ordinary e (h.subset he)

theorem nodup_created_of_moment {pre : List Event} (h : pre <+: es) (fresh : (created es).Nodup) :
    (created pre).Nodup := by
  obtain ⟨post, rfl⟩ := h
  rw [created, List.filterMap_append] at fresh
  exact (List.nodup_append.1 fresh).1

/-- A run that has a container at one moment is its sole keeper at any later one. -/
theorem soleKeeper_later {c : Config} {epoch : ℕ} {pre : List Event} {s₁ s₂ : Supervisor}
    (start : start? c epoch = some s₀) (ordinary : ∀ e ∈ es, e.Ordinary)
    (fresh : (created es).Nodup)
    (h₁ : AtMoment s₀ es pre s₁) (has : s₁.Has k id) (h₂ : s₀.after? es = some s₂) :
    s₂.SoleKeeper k id := by
  obtain ⟨⟨post, rfl⟩, after₁⟩ := h₁
  rw [created, List.filterMap_append] at fresh
  obtain ⟨fresh₁, _, disjoint⟩ := List.nodup_append.1 fresh
  obtain ⟨laid, hcharge⟩ := inCharge_le_created start
    (fun e he => ordinary e (List.mem_append_left _ he)) after₁
  have hone := List.nodup_iff_count_le_one.1 fresh₁ id
  have hle := hcharge id
  have hin : id ∈ created pre := by
    obtain ⟨r, found, hr⟩ := has
    have hpos := count_le_count_flatMap Task.inHand id found
    rw [Run.inHand_of_leased hr, List.count_singleton_self] at hpos
    rw [count_inCharge] at hle
    exact List.count_pos_iff.1 (by omega)
  rw [after?_append, after₁, Option.bind_some] at h₂
  refine (after?_induction Event.Ordinary (fun es s => id ∉ created es → s.SoleKeeper k id)
    (fun h => h) laid (fun _ => soleKeeper_of_has has (hle.trans hone))
    (fun {es s e s'} _ _ hP _ _ ht hnew => ?_)
    (fun e he => ordinary e (List.mem_append_right _ he)) h₂).2 ?_
  · rw [created_concat, List.mem_append, not_or, Option.mem_toList] at hnew
    exact ht.soleKeeper (hP hnew.1) hnew.2
  · exact fun hid => disjoint id hin id hid rfl

/-- **No two runs ever have the same container.** -/
theorem sole_user {c : Config} {epoch : ℕ} {pre₁ pre₂ : List Event} {s₁ s₂ : Supervisor}
    {k₁ k₂ : ℕ} (start : start? c epoch = some s₀) (ordinary : ∀ e ∈ es, e.Ordinary)
    (fresh : (created es).Nodup) (h₁ : AtMoment s₀ es pre₁ s₁) (has₁ : s₁.Has k₁ id)
    (h₂ : AtMoment s₀ es pre₂ s₂) (has₂ : s₂.Has k₂ id) : k₁ = k₂ := by
  rcases List.prefix_or_prefix_of_prefix h₁.1 h₂.1 with h | h
  · have hk := soleKeeper_later start (ordinary_of_moment h₂.1 ordinary)
      (nodup_created_of_moment h₂.1 fresh) ⟨h, h₁.2⟩ has₁ h₂.2
    exact (hk.eq_of_has has₂).symm
  · have hk := soleKeeper_later start (ordinary_of_moment h₁.1 ordinary)
      (nodup_created_of_moment h₁.1 fresh) ⟨h, h₂.2⟩ has₂ h₁.2
    exact hk.eq_of_has has₁

/-- Whoever used a container was a run that had it. -/
theorem user_of_call {c : Config} {epoch : ℕ} (start : start? c epoch = some s₀)
    (ordinary : ∀ e ∈ es, e.Ordinary) (after : s₀.after? es = some s) {j : ℕ} {call : Call}
    (hcall : (j, call) ∈ s.calls) (hused : call.used? = some id) :
    ∃ pre s₁, AtMoment s₀ es pre s₁ ∧ s₁.Has j id := by
  have hnil : s₀.calls = [] := by rw [start?_eq_some start]
  refine (after?_induction Event.Ordinary (fun es s => ∀ {j call}, (j, call) ∈ s.calls →
    call.used? = some id → ∃ pre s₁, AtMoment s₀ es pre s₁ ∧ s₁.Has j id) (fun h => h)
    (laid_start start) (fun hj => by
      rw [hnil] at hj
      cases hj)
    (fun {es s e s'} _ hafter hP _ hstep ht => ?_) ordinary after).2 hcall hused
  intro j call hj hu
  obtain ⟨new, hnew, hcalls⟩ := ht.calls
  rw [hnew] at hj
  rcases List.mem_append.1 hj with hj | hj
  · obtain ⟨t, htask, hcall⟩ := hcalls hj
    obtain ⟨r, rfl, hr⟩ := Task.leased_of_used hcall hu
    have hafter' : s₀.after? (es ++ [e]) = some s' := after?_concat_eq_some.2 ⟨s, hafter, hstep⟩
    exact ⟨es ++ [e], s', ⟨List.prefix_refl _, hafter'⟩, r, htask, hr⟩
  · obtain ⟨pre, s₁, ⟨hpre, hafter₁⟩, rest⟩ := hP hj hu
    exact ⟨pre, s₁, ⟨hpre.trans (List.prefix_append _ _), hafter₁⟩, rest⟩

/-! ### A run from its beginning -/

variable {c : Config} {epoch : ℕ} {b : Supervisor} {pre post : List Event} {request : Request}
  {cancelled : Bool} {job : Job}

/-- A run serves its job until it is dropped, and it stays where it is. -/
theorem serves_after (start : start? c epoch = some s₀) (before : s₀.after? pre = some b)
    (known : c.job? request = some job)
    (ordinary : ∀ e ∈ pre ++ .run request cancelled :: post, e.Ordinary)
    (after : s₀.after? (pre ++ .run request cancelled :: post) = some s) :
    s.Laid ∧ ((∃ r, s.tasks[b.tasks.length]? = some (.run r) ∧
        Serves s₀ (pre ++ .run request cancelled :: post) job r) ∨
      s.tasks[b.tasks.length]? = some .over) := by
  obtain ⟨laid, config, stock⟩ := stocked start
    (fun e he => ordinary e (List.mem_append_left _ he)) before
  obtain ⟨r, found, serves⟩ := serves_begin laid config stock known cancelled
  have laid' : (b.beginRun request cancelled).Laid :=
    laid.turn (turn_of_beginRun laid request cancelled)
  have after' : (b.beginRun request cancelled).after? post = some s := by
    rw [after?_append, before, Option.bind_some, after?_cons] at after
    exact after
  -- by induction on what happens after the beginning: the run keeps its place
  refine after?_induction Event.Ordinary (fun post s =>
    (∃ r, s.tasks[b.tasks.length]? = some (.run r) ∧
      Serves s₀ (pre ++ .run request cancelled :: post) job r) ∨
    s.tasks[b.tasks.length]? = some .over) (fun h => h) laid'
    (Or.inl ⟨r, found, serves.append rfl _⟩)
    (fun {es s e s'} laid hafter hP _ hstep ht => ?_)
    (fun e he => ordinary e (by simp [he])) after'
  have hmore : pre ++ .run request cancelled :: (es ++ [e]) =
      pre ++ .run request cancelled :: es ++ [e] := by simp
  rw [hmore]
  rcases hP with ⟨r, hr, serves⟩ | hover
  · rcases ht.task hr with ⟨_, hr'⟩ | ⟨r', he, _, hr'⟩ | ⟨sig, t', rfl, goes, hr'⟩ | ⟨_, _, hr'⟩
    · exact Or.inl ⟨r, hr', serves.append rfl _⟩
    · cases he
      exact Or.inl ⟨_, hr', serves.append (by rfl) _⟩
    · generalize s'.pools = pools', s'.unjoined = unjoined' at goes
      cases goes with
      | run h =>
        refine Or.inl ⟨_, hr', serves.step ?_ hr h⟩
        rw [after?_append, before, Option.bind_some, after?_cons]
        exact hafter
    · exact Or.inr hr'
  · rcases ht.task hover with ⟨_, hr'⟩ | ⟨r', he, _, hr'⟩ | ⟨sig, t', rfl, goes, hr'⟩ | ⟨_, _, hr'⟩
    · exact Or.inr hr'
    · cases he
    · cases goes
    · exact Or.inr hr'

/-- An event about a run leaves the pools as they are. -/
theorem Turn.pools_of_run (h : Turn s s' e) (he : e.task? = some k)
    (hk : (∃ r, s.tasks[k]? = some (.run r)) ∨ s.tasks[k]? = some .over) : s'.pools = s.pools := by
  cases h with
  | quiet aside _ _ _ _ _ =>
    rw [aside] at he
    cases he
  | spawn aside _ _ _ _ _ _ _ =>
    rw [aside] at he
    cases he
  | cancel _ _ _ pools _ _ => exact pools
  | drop _ _ _ _ pools _ _ => exact pools
  | @signal j sig t t' found goes _ _ _ =>
    cases he
    rw [found] at hk
    rcases hk with ⟨r, hk⟩ | hk
    · cases hk
      exact (goes.passes.keeps rfl).2
    · cases hk
      exact (goes.passes.keeps rfl).2

/-- A run that may not take an idle container begins without a look at the pools. -/
theorem pools_of_beginRun (config : b.config = c) (known : c.job? request = some job)
    (h : job.takesIdle = false) : (b.beginRun request cancelled).pools = b.pools := by
  unfold beginRun
  rw [config, known]
  simp only [h, spawn_eq]
  rfl

/-- A job whose memory limit is not that of its profile begins without an idle container. -/
theorem takesIdle_eq_false (known : c.job? request = some job)
    (h : job.profile.memoryLimit request.memory ≠ job.profile.ownMemoryLimit) :
    job.takesIdle = false := by
  obtain ⟨q, _, hjob⟩ := Option.map_eq_some_iff.1 known
  have hrequest : job.request = request := by rw [← hjob]
  rw [Job.takesIdle, hrequest]
  exact beq_false_of_ne h

/-- What a run has to itself was created as its job needs it. -/
theorem createdWith_of_has (start : start? c epoch = some s₀) (before : s₀.after? pre = some b)
    (known : c.job? request = some job)
    (ordinary : ∀ e ∈ pre ++ .run request cancelled :: post, e.Ordinary)
    (after : s₀.after? (pre ++ .run request cancelled :: post) = some s)
    (has : s.Has b.tasks.length id) :
    CreatedWith s₀ (pre ++ .run request cancelled :: post) id job.spec := by
  obtain ⟨r, found, hr⟩ := has
  obtain ⟨_, ⟨r', found', serves⟩ | hover⟩ := serves_after start before known ordinary after
  · rw [found] at found'
    cases found'
    refine serves.origin ?_
    rw [Run.inHand_of_leased hr]
    exact List.mem_singleton.2 rfl
  · rw [found] at hover
    cases hover

/-- **Exclusive use.** Consider any events that can happen, in the course of which no container is
created twice, and a run of a known language that begins among them. A container that the run has at
some moment was created before as the job of the run needs it, no other run has it at any moment, it
is in no pool then or later, and whoever uploads to it or executes in it is this run. If the memory
limit of the job is not that of the profile, neither the beginning of the run nor anything that is
done with it changes a pool. -/
theorem exclusive_use (start : start? c epoch = some s₀)
    (ordinary : ∀ e ∈ pre ++ .run request cancelled :: post, e.Ordinary)
    (fresh : (created (pre ++ .run request cancelled :: post)).Nodup)
    (before : s₀.after? pre = some b) (known : c.job? request = some job)
    (after : s₀.after? (pre ++ .run request cancelled :: post) = some s) :
    (∀ {mid s₁ id}, mid <+: post → s₀.after? (pre ++ .run request cancelled :: mid) = some s₁ →
      s₁.Has b.tasks.length id →
        CreatedWith s₀ (pre ++ .run request cancelled :: mid) id job.spec ∧
        (∀ {pre' s₂ j}, AtMoment s₀ (pre ++ .run request cancelled :: post) pre' s₂ → s₂.Has j id →
          j = b.tasks.length) ∧
        (∀ {mid' s₂}, mid <+: mid' → mid' <+: post →
          s₀.after? (pre ++ .run request cancelled :: mid') = some s₂ → id ∉ s₂.idle) ∧
        ∀ {j call}, (j, call) ∈ s.calls → call.used? = some id → j = b.tasks.length) ∧
      (job.profile.memoryLimit request.memory ≠ job.profile.ownMemoryLimit →
        (∀ {b'}, b.step (.run request cancelled) = some b' → b'.pools = b.pools) ∧
        ∀ {mid e s₁ s₂}, mid ++ [e] <+: post →
          s₀.after? (pre ++ .run request cancelled :: mid) = some s₁ → s₁.step e = some s₂ →
          e.task? = some b.tasks.length → s₂.pools = s₁.pools) := by
  have prefix_mid : ∀ {mid mid' : List Event}, mid <+: mid' →
      pre ++ .run request cancelled :: mid <+: pre ++ .run request cancelled :: mid' := by
    intro mid mid' h
    exact List.prefix_append_right_inj pre |>.2 (List.cons_prefix_cons.2 ⟨rfl, h⟩)
  constructor
  · intro mid s₁ id hmid after₁ has
    have moment : AtMoment s₀ (pre ++ .run request cancelled :: post)
        (pre ++ .run request cancelled :: mid) s₁ := ⟨prefix_mid hmid, after₁⟩
    have only : ∀ {pre' s₂ j}, AtMoment s₀ (pre ++ .run request cancelled :: post) pre' s₂ →
        s₂.Has j id → j = b.tasks.length :=
      fun h₂ has₂ => sole_user start ordinary fresh h₂ has₂ moment has
    refine ⟨?_, only, fun hmid' hpost after₂ => ?_, fun hcall hused => ?_⟩
    · exact createdWith_of_has start before known (ordinary_of_moment moment.1 ordinary) after₁ has
    · exact (soleKeeper_later start (ordinary_of_moment (prefix_mid hpost) ordinary)
        (nodup_created_of_moment (prefix_mid hpost) fresh) ⟨prefix_mid hmid', after₁⟩ has
        after₂).not_idle
    · obtain ⟨pre', s₂, h₂, has₂⟩ := user_of_call start ordinary after hcall hused
      exact only h₂ has₂
  · intro hmem
    obtain ⟨laid, config, _⟩ := stocked start
      (fun e he => ordinary e (List.mem_append_left _ he)) before
    refine ⟨fun hb => ?_, fun {mid e s₁ s₂} hmid after₁ hstep he => ?_⟩
    · cases hb
      exact pools_of_beginRun config known (takesIdle_eq_false known hmem)
    · have hmid' : mid <+: post := (List.prefix_append mid [e]).trans hmid
      obtain ⟨laid₁, hk⟩ :=
        serves_after start before known (ordinary_of_moment (prefix_mid hmid') ordinary) after₁
      have heo : e.Ordinary := ordinary e (by
        have : e ∈ post := hmid.subset (by simp)
        simp [this])
      exact (turn_of_step laid₁ heo hstep).pools_of_run he (hk.imp_left fun ⟨r, h, _⟩ => ⟨r, h⟩)

theorem exclusive_use_oneLife : ∃ s₀ b s s₁ job, start? .small 0 = some s₀ ∧
    s₀.after? (oneLife.take 7) = some b ∧ Config.small.job? (.ofCode "sh" "true") = some job ∧
    s₀.after? oneLife = some s ∧ s₀.after? (oneLife.take 8) = some s₁ ∧
    s₁.Has b.tasks.length ⟨"a"⟩ ∧ CreatedWith s₀ (oneLife.take 8) ⟨"a"⟩ job.spec ∧
    ∀ {j call}, (j, call) ∈ s.calls → call.used? = some ⟨"a"⟩ → j = b.tasks.length := by
  have hs : ∃ s₀ b s s₁ job, start? .small 0 = some s₀ ∧ s₀.after? (oneLife.take 7) = some b ∧
      Config.small.job? (.ofCode "sh" "true") = some job ∧ s₀.after? oneLife = some s ∧
      s₀.after? (oneLife.take 8) = some s₁ ∧ s₁.Has b.tasks.length ⟨"a"⟩ :=
    ⟨_, _, _, _, _, rfl, rfl, rfl, rfl, rfl, _, rfl, rfl⟩
  obtain ⟨s₀, b, s, s₁, job, start, before, known, after, after₁, has⟩ := hs
  have ordinary : ∀ e ∈ oneLife.take 7 ++ .run (.ofCode "sh" "true") false :: oneLife.drop 8,
      e.Ordinary := by
    simp [oneLife, Event.Ordinary]
  have h := exclusive_use start ordinary (by decide) before known after
  obtain ⟨created, _, _, calls⟩ := h.1 List.nil_prefix after₁ has
  exact ⟨s₀, b, s, s₁, job, start, before, known, after, after₁, has, created, calls⟩

end Supervisor

end Isolate
