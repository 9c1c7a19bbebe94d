import Isolate.Proofs.Supervisor.Charge

/-!
# What a container was created for

The containers of a pool, and those in the hands of its upkeep task, were created with the limits of
the profile of its language. A run has a container that was created for its own job: it created it
itself, or it took it from a pool whose containers fit.

* `CreatedWith`: a container was created by a call with a given specification;
* `WellStocked`, `stocked`: the invariant of pools and upkeep tasks;
* `Serves`, `serves_begin`, `Serves.step`: the invariant of a run.
-/

namespace Isolate

/-! ### Creating calls -/

theorem Signal.created?_eq_some {sig : Signal} {id : ContainerId} (h : sig.created? = some id) :
    sig = .reply (.created (.ok id)) := by
  unfold created? at h
  split at h
  · cases h
    rfl
  · cases h

/-- Only who asked for a container is given one. -/
theorem Provision.creating_of_created {now : Instant} {p : Provision} {id : ContainerId}
    {q : Progress Provision (Except EngineError ContainerId)}
    (h : p.step now (.reply (.created (.ok id))) = some q) : ∃ spec, p = .creating spec := by
  cases p with
  | creating spec => exact ⟨spec, rfl⟩
  | starting id' => cases h
  | undoing removal e =>
    simp only [step] at h
    split at h <;> rename_i hr
    · cases hr
    · cases hr
    · cases h

/-- No provision asks twice. -/
theorem Provision.call_of_going {now : Instant} {p p' : Provision} {sig : Signal}
    (h : p.step now sig = some (.going p')) (spec : ContainerSpec) : p'.call ≠ .create spec := by
  rcases step_eq_some h with ⟨_, id, _, _, hq⟩ | ⟨_, e, _, _, hq⟩ | ⟨id, _, _, hq⟩ |
    ⟨id, e, _, _, hq⟩ | ⟨removal, e, _, _, hq⟩ <;> cases hq <;> rintro ⟨⟩

namespace Upkeep

variable {settings : PoolSettings} {now : Instant} {stopping : Bool} {u u' : Upkeep}
  {pool pool' : WarmPool} {sig : Signal}

theorem spec_step (h : u.step settings now stopping pool sig = some (u', pool')) :
    u'.spec = u.spec := by
  obtain ⟨point', rfl, _⟩ := step_eq_some h
  rfl

theorem creating_of_created {id : ContainerId}
    (h : u.step settings now stopping pool (.reply (.created (.ok id))) = some (u', pool')) :
    ∃ spec, u.point.call? = some (.create spec) := by
  obtain ⟨point', _, hp⟩ := step_eq_some h
  obtain ⟨language, spec, point⟩ := u
  cases point with
  | provisioning provision =>
    obtain ⟨q, hq⟩ : ∃ q, provision.step now (.reply (.created (.ok id))) = some q := by
      obtain ⟨_, ⟨p, hq, _⟩ | ⟨_, hq, _⟩ | ⟨_, hq, _⟩⟩ := Point.step_provisioning hp
      · exact ⟨_, hq⟩
      · exact ⟨_, hq⟩
      · exact ⟨_, hq⟩
    obtain ⟨spec', rfl⟩ := provision.creating_of_created hq
    exact ⟨spec', rfl⟩
  | discarding removal last =>
    have hr := (Point.step_discarding hp).2.1
    cases hr
  | emptying removal rest =>
    have hr := (Point.step_emptying hp).2.1
    cases hr
  | _ => simp [Point.step] at hp

/-- An upkeep task asks for a container only when it has looked at its pool and found room, and then
for one of its language. -/
theorem creates_of_step (h : u.step settings now stopping pool sig = some (u', pool'))
    {spec : ContainerSpec} (hc : u'.point.call? = some (.create spec)) :
    u.point = .checking ∧ sig = .proceed ∧ pool.isFull = false ∧ spec = u.spec ∧
      u'.point = .provisioning (.creating u.spec) := by
  obtain ⟨point', rfl, hp⟩ := step_eq_some h
  obtain ⟨language, own, point⟩ := u
  cases point with
  | polling wake => obtain ⟨_, ⟨_, _, rfl⟩ | ⟨_, _, rfl⟩⟩ := Point.step_polling hp <;> cases hc
  | checking =>
    obtain ⟨_, proceed, ⟨_, ⟨_⟩ | ⟨_, _⟩⟩ | ⟨hroom, rfl⟩⟩ := Point.step_checking hp
    · cases hc
    · cases hc
    · cases hc
      exact ⟨rfl, proceed, hroom, rfl, rfl⟩
  | provisioning provision =>
    obtain ⟨_, ⟨p, hq, rfl⟩ | ⟨_, _, rfl⟩ | ⟨_, _, ⟨_⟩ | ⟨_, _⟩⟩⟩ := Point.step_provisioning hp
    · exact absurd (Option.some.inj hc) (provision.call_of_going hq spec)
    · cases hc
    · cases hc
    · cases hc
  | deciding id => obtain ⟨_, _, ⟨_, rfl⟩ | ⟨_, rfl⟩⟩ := Point.step_deciding hp <;> cases hc
  | storing id =>
    obtain ⟨_, ⟨_, ⟨_⟩ | ⟨_, _⟩⟩ | ⟨_, _, rfl⟩⟩ := Point.step_storing hp <;> cases hc
  | discarding removal last =>
    obtain ⟨_, _, ⟨_, rfl⟩ | ⟨_, ⟨_⟩ | ⟨_, _⟩⟩⟩ := Point.step_discarding hp <;> cases hc
  | backingOff wake =>
    obtain ⟨_, ⟨_, _, ⟨_⟩ | ⟨_, _⟩⟩ | ⟨_, _, rfl⟩⟩ := Point.step_backingOff hp <;> cases hc
  | leaving =>
    obtain ⟨_, _, rfl⟩ := Point.step_leaving hp
    cases hi : pool.idle <;> simp [hi, empty, Point.call?, Removal.call] at hc
  | emptying removal rest =>
    obtain ⟨_, _, rfl⟩ := Point.step_emptying hp
    cases rest <;> simp [empty, Point.call?, Removal.call] at hc
  | ended => simp [Point.step_ended] at hp

/-- An upkeep task asks for the containers of its language. -/
theorem call_of_step (h : u.step settings now stopping pool sig = some (u', pool'))
    {spec : ContainerSpec} (hc : u'.point.call? = some (.create spec)) : spec = u.spec :=
  (creates_of_step h hc).2.2.2.1

end Upkeep

namespace Run

variable {now stamp : ℕ} {r r' : Run} {sig : Signal}

theorem creating_of_created {id : ContainerId}
    (h : r.step now stamp (.reply (.created (.ok id))) = some r') :
    ∃ spec, r.stage.call? = some (.create spec) := by
  obtain ⟨stage', hs, _⟩ := Option.map_eq_some_iff.1 h
  obtain ⟨c, stage⟩ := r
  cases stage with
  | provisioning job provision =>
    obtain ⟨q, hq⟩ : ∃ q, provision.step now (.reply (.created (.ok id))) = some q := by
      rcases step_provisioning hs with ⟨p, hq, _⟩ | ⟨_, hq, _⟩ | ⟨_, hq, _⟩
      · exact ⟨_, hq⟩
      · exact ⟨_, hq⟩
      · exact ⟨_, hq⟩
    obtain ⟨spec', rfl⟩ := provision.creating_of_created hq
    exact ⟨spec', rfl⟩
  | uploading job id' archive => cases hs
  | executing x =>
    obtain ⟨p, hp, _⟩ := step_executing hs
    cases Execution.created?_of_step hp
  | releasing removal result =>
    have hr := (step_releasing hs).1
    cases hr
  | done result => cases hs

/-- A run asks for a container only at its beginning. -/
theorem call_of_step (h : r.step now stamp sig = some r') (spec : ContainerSpec) :
    r'.stage.call? ≠ some (.create spec) := by
  have hacquired : ∀ job id, (acquired now stamp job id).call? ≠ some (.create spec) := by
    intro job id
    unfold acquired
    split <;> rintro ⟨⟩
  have hafter : ∀ id p, (afterExecution now id p).call? ≠ some (.create spec) := by
    intro id p
    cases p with
    | going x =>
      simp only [afterExecution, Stage.call?, Execution.call?]
      split <;> rintro ⟨⟩
    | finished result => rintro ⟨⟩
  obtain ⟨stage', hs, rfl⟩ := Option.map_eq_some_iff.1 h
  obtain ⟨c, stage⟩ := r
  cases stage with
  | provisioning job provision =>
    rcases step_provisioning hs with ⟨p, hp, rfl⟩ | ⟨id, _, rfl⟩ | ⟨_, _, rfl⟩
    · exact fun hc => provision.call_of_going hp spec (Option.some.inj hc)
    · exact hacquired job id
    · rintro ⟨⟩
  | uploading job id archive =>
    rcases step_uploading hs with ⟨_, rfl⟩ | ⟨e, _, rfl⟩
    · exact hafter id _
    · rintro ⟨⟩
  | executing x =>
    obtain ⟨p, _, rfl⟩ := step_executing hs
    exact hafter x.container p
  | releasing removal result =>
    obtain ⟨_, rfl⟩ := step_releasing hs
    rintro ⟨⟩
  | done result => simp [step_done] at hs

end Run

namespace Supervisor

variable {s₀ s s' : Supervisor} {c : Config} {es : List Event} {e : Event} {i k : ℕ}
  {id : ContainerId} {spec : ContainerSpec}

/-- Among the events there is one that brings the container into the world, the answer to a call for
a container of this specification. -/
def CreatedWith (s₀ : Supervisor) (es : List Event) (id : ContainerId) (spec : ContainerSpec) :
    Prop :=
  ∃ (pre post : List Event) (j : ℕ) (s : Supervisor) (t : Task),
    es = pre ++ .signal j (.reply (.created (.ok id))) :: post ∧ s₀.after? pre = some s ∧
      s.tasks[j]? = some t ∧ t.call? = some (.create spec)

theorem CreatedWith.append (h : CreatedWith s₀ es id spec) (more : List Event) :
    CreatedWith s₀ (es ++ more) id spec := by
  obtain ⟨pre, post, j, s, t, rfl, rest⟩ := h
  exact ⟨pre, post ++ more, j, s, t, by simp, rest⟩

/-- What was created just now. -/
theorem createdWith_now {t : Task} {sig : Signal} (after : s₀.after? es = some s)
    (found : s.tasks[k]? = some t) (hc : sig.created? = some id)
    (call : t.call? = some (.create spec)) :
    CreatedWith s₀ (es ++ [.signal k sig]) id spec := by
  rw [Signal.created?_eq_some hc]
  exact ⟨es, [], k, s, t, rfl, after, found, call⟩

/-! ### Pools -/

/-- The containers of a pool and of its upkeep task fit the profile of the language. -/
structure WellStocked (c : Config) (s₀ : Supervisor) (es : List Event) (u : Upkeep) (p : WarmPool) :
    Prop where
  profile : ∃ q, c.profile? u.language = some q ∧ u.spec = q.containerSpec none
  asks : ∀ {spec}, u.point.call? = some (.create spec) → spec = u.spec
  origin : ∀ {id}, id ∈ (Task.upkeep u).inHand ∨ id ∈ p.idle → CreatedWith s₀ es id u.spec

theorem WellStocked.append {u : Upkeep} {p p' : WarmPool} (h : WellStocked c s₀ es u p)
    (hp : p'.idle ⊆ p.idle) (more : List Event) : WellStocked c s₀ (es ++ more) u p' where
  profile := h.profile
  asks := h.asks
  origin := fun hid => (h.origin (hid.imp_right fun hi => hp hi)).append more

theorem WellStocked.step {u u' : Upkeep} {p p' : WarmPool} {settings : PoolSettings} {now : Instant}
    {stopping : Bool} {sig : Signal} (after : s₀.after? es = some s)
    (found : s.tasks[k]? = some (.upkeep u)) (h : WellStocked c s₀ es u p)
    (hstep : u.step settings now stopping p sig = some (u', p')) :
    WellStocked c s₀ (es ++ [.signal k sig]) u' p' := by
  have hlang := (Upkeep.language_step hstep).1
  have hspec := Upkeep.spec_step hstep
  refine ⟨by rw [hlang, hspec]; exact h.profile,
    fun hc => by rw [hspec]; exact Upkeep.call_of_step hstep hc, fun {id} hid => ?_⟩
  rw [hspec]
  -- it was there before, or it was created just now
  have hcount := Upkeep.count_step hstep id
  have hpos : 0 < (Task.upkeep u').inHand.count id + p'.idle.count id := by
    rcases hid with hid | hid <;> have := List.count_pos_iff.2 hid <;> omega
  by_cases hborn : sig.created? = some id
  · obtain ⟨spec, hcall⟩ := Upkeep.creating_of_created (Signal.created?_eq_some hborn ▸ hstep)
    obtain rfl := h.asks hcall
    exact createdWith_now after found hborn hcall
  · have hzero : sig.created?.toList.count id = 0 := by
      rw [List.count_eq_zero, Option.mem_toList]
      exact hborn
    refine (h.origin ?_).append _
    by_cases hin : id ∈ (Task.upkeep u).inHand
    · exact Or.inl hin
    · have hle := (Task.upkeep u).holding_le_inHand id
      rw [List.count_eq_zero.2 hin] at hle
      exact Or.inr (List.count_pos_iff.1 (by omega))

/-- All pools are well stocked. -/
def Stocked (c : Config) (s₀ : Supervisor) (es : List Event) (s : Supervisor) : Prop :=
  ∀ {i : ℕ} {u : Upkeep} {p : WarmPool}, s.tasks[i]? = some (.upkeep u) → s.pools[i]? = some p →
    WellStocked c s₀ es u p

theorem stocked_start {epoch : ℕ} (start : start? c epoch = some s) : Stocked c s₀ [] s := by
  intro i u p hu hp
  have hin := inHand_start start (List.mem_of_getElem? hu)
  have hidle : p.idle = [] :=
    List.flatMap_eq_nil_iff.1 (idle_start start) p (List.mem_of_getElem? hp)
  rw [start?_eq_some start] at hu
  obtain ⟨u', hu', he⟩ := List.mem_map.1 (List.mem_of_getElem? hu)
  cases he
  obtain ⟨q, hq, hbegin⟩ := mem_keepers hu'
  refine ⟨⟨q, hq, by rw [hbegin]; rfl⟩, fun hc => ?_, fun hid => ?_⟩
  · rw [hbegin] at hc
    cases hc
  · rw [hin, hidle] at hid
    rcases hid with hid | hid <;> cases hid

theorem Stocked.turn (laid : s.Laid) (after : s₀.after? es = some s) (h : Stocked c s₀ es s)
    (ht : Turn s s' e) : Stocked c s₀ (es ++ [e]) s' := by
  intro i u' p' hu' hp'
  obtain ⟨u, hu⟩ := laid.upkeep_before (laid.turn ht) ht.languages hu'
  rcases ht.upkeep hu with ⟨hsame, hpool⟩ | ⟨sig, u₁, p, p₁, rfl, hp, hstep, hu₁, hp₁⟩
  · obtain rfl : u' = u := by simpa [hu'] using hsame
    obtain ⟨p, hp, hsub⟩ := hpool hp'
    exact (h hu hp).append hsub _
  · obtain rfl : u' = u₁ := by simpa [hu'] using hu₁
    obtain rfl : p' = p₁ := by simpa [hp'] using hp₁
    exact (h hu hp).step after hu hstep

/-- **The pools are always well stocked.** -/
theorem stocked {epoch : ℕ} (start : start? c epoch = some s₀) (ordinary : ∀ e ∈ es, e.Ordinary)
    (after : s₀.after? es = some s) : s.Laid ∧ s.config = c ∧ Stocked c s₀ es s := by
  refine after?_induction Event.Ordinary (fun es s => s.config = c ∧ Stocked c s₀ es s) (fun h => h)
    (laid_start start) ⟨by rw [start?_eq_some start], stocked_start start⟩
    (fun laid after hP _ _ ht => ⟨?_, Stocked.turn laid after hP.2 ht⟩) ordinary after
  rw [ht.config, hP.1]

/-! ### Runs -/

/-- The containers of a run were created for its job. -/
structure Serves (s₀ : Supervisor) (es : List Event) (job : Job) (r : Run) : Prop where
  asks : ∀ {spec}, r.stage.call? = some (.create spec) → spec = job.spec
  origin : ∀ {id}, id ∈ (Task.run r).inHand → CreatedWith s₀ es id job.spec

theorem Serves.append {job : Job} {r r' : Run} (h : Serves s₀ es job r) (hr : r'.stage = r.stage)
    (more : List Event) : Serves s₀ (es ++ more) job r' where
  asks := by
    rw [hr]
    exact h.asks
  origin := fun hid => by
    rw [Run.inHand_eq, hr, ← Run.inHand_eq] at hid
    exact (h.origin hid).append more

theorem Serves.step {job : Job} {r r' : Run} {now stamp : ℕ} {sig : Signal}
    (after : s₀.after? es = some s) (found : s.tasks[k]? = some (.run r)) (h : Serves s₀ es job r)
    (hstep : r.step now stamp sig = some r') : Serves s₀ (es ++ [.signal k sig]) job r' := by
  refine ⟨fun hc => absurd hc (Run.call_of_step hstep _), fun {id} hid => ?_⟩
  rw [Run.inHand_step hstep] at hid
  rcases List.mem_append.1 hid with hid | hid
  · exact (h.origin (List.mem_append_left _ hid)).append _
  · have hborn := Option.mem_toList.1 hid
    obtain ⟨spec, hcall⟩ := Run.creating_of_created (Signal.created?_eq_some hborn ▸ hstep)
    obtain rfl := h.asks hcall
    exact createdWith_now after found hborn hcall

theorem serves_of_idle {job : Job} {now stamp : ℕ} {cancelled : Bool} {idle : Option ContainerId}
    (h : ∀ id ∈ idle, CreatedWith s₀ es id job.spec) :
    Serves s₀ es job ⟨cancelled, Run.begin now stamp job idle⟩ := by
  refine ⟨fun {spec} hc => ?_, fun {id} hid => ?_⟩
  · cases idle with
    | none =>
      cases hc
      rfl
    | some id =>
      simp only [Run.begin, Run.acquired] at hc
      split at hc <;> cases hc
  · rw [inHand_begin, Option.mem_toList] at hid
    exact h id hid

/-- Jobs that take idle containers need what all jobs of the language need that set no limit. -/
theorem spec_of_takesIdle {job : Job} (h : job.takesIdle = true) :
    job.profile.containerSpec none = job.spec := by
  have hm : job.profile.memoryLimit none = job.profile.memoryLimit job.request.memory :=
    (eq_of_beq h).symm
  rw [Job.spec, Profile.containerSpec, Profile.containerSpec, hm]

/-- **A run begins with a container that fits, or asks for one.** -/
theorem serves_begin {request : Request} {job : Job} (laid : s.Laid) (config : s.config = c)
    (stock : Stocked c s₀ es s) (known : c.job? request = some job) (cancelled : Bool) :
    ∃ r, (s.beginRun request cancelled).tasks[s.tasks.length]? = some (.run r) ∧
      Serves s₀ es job r := by
  unfold beginRun
  rw [config, known]
  obtain ⟨q, hq, hjob⟩ := Option.map_eq_some_iff.1 known
  by_cases ht : job.takesIdle = true
  · obtain ⟨idle, pools, he, _, _, hidle⟩ := takeIdle_eq laid request.language
    simp only [ht, if_true, he, spawn_eq]
    refine ⟨_, List.getElem?_concat_length, serves_of_idle fun id hid => ?_⟩
    obtain ⟨i, p, hp, hlang, hmem⟩ := hidle id hid
    obtain ⟨u, hu, hul⟩ := laid.kept hp
    obtain ⟨q', hq', hspec⟩ := (stock hu hp).profile
    rw [hul, hlang, hq] at hq'
    cases hq'
    have horigin := (stock hu hp).origin (Or.inr hmem)
    have hprofile : job.profile = q := by rw [← hjob]
    rwa [hspec, ← hprofile, spec_of_takesIdle ht] at horigin
  · simp only [ht, spawn_eq]
    exact ⟨_, List.getElem?_concat_length, serves_of_idle (by rintro id ⟨⟩)⟩

end Supervisor

end Isolate
