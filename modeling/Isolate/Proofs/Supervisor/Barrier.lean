import Isolate.Proofs.Supervisor.Exclusivity

/-!
# What a request to stop has waited for

A request to stop waits for the upkeep tasks that it took over. One that comes while another is
under way has nothing to take over and returns before them; so what a return says depends on who
else is under way.

* `Happened`: something was the case at one of the events;
* `EndsRemoval`, `ends_of_stepTask`: a task that removes a container goes on when it is answered or
  when it gives up;
* `Asked`: what a task waits for was asked;
* `InStock`, `InStock.step`: a container for the pools stays with those who look after them, until a
  run takes it or its removal is over;
* `Oversees`, `Oversees.turn`: the request that took the upkeep tasks over;
* `stopped_of_returned`: what is the case when a request to stop has returned.
-/

namespace Isolate

/-! ### Removals that are waited for -/

/-- A removal that is waited for up to a moment is answered, or given up at that moment. -/
def Signal.EndsRemoval (now : Instant) (wake? : Option Instant) (sig : Signal) : Prop :=
  (∃ result, sig = .reply (.done result)) ∨ sig = .timer ∧ ∃ wake ∈ wake?, wake ≤ now

variable {now : Instant} {sig : Signal} {id : ContainerId}

theorem Removal.ends_of_step {r : Removal} {p : Progress Removal Unit}
    (h : r.step now sig = some p) : sig.EndsRemoval now (some r.giveUpAt) :=
  (Removal.step_eq_some h).2.imp_right fun h => ⟨h.1, _, rfl, h.2⟩

theorem Provision.ends_of_step {p : Provision}
    {q : Progress Provision (Except EngineError ContainerId)} (hc : p.call = .remove id)
    (h : p.step now sig = some q) : sig.EndsRemoval now p.wake? := by
  rcases step_eq_some h with ⟨_, _, rfl, _⟩ | ⟨_, _, rfl, _⟩ | ⟨_, rfl, _⟩ | ⟨_, _, rfl, _⟩ |
    ⟨removal, _, rfl, hr, _⟩
  · cases hc
  · cases hc
  · cases hc
  · cases hc
  · exact removal.ends_of_step hr

theorem Run.ends_of_step {r r' : Run} {stamp : ℕ} (hc : r.stage.call? = some (.remove id))
    (h : r.step now stamp sig = some r') : sig.EndsRemoval now r.stage.wake? := by
  obtain ⟨stage', hs, _⟩ := Option.map_eq_some_iff.1 h
  obtain ⟨c, stage⟩ := r
  cases stage with
  | provisioning job provision =>
    rcases step_provisioning hs with ⟨_, hp, _⟩ | ⟨_, hp, _⟩ | ⟨_, hp, _⟩ <;>
      exact provision.ends_of_step (Option.some.inj hc) hp
  | releasing removal result => exact removal.ends_of_step (step_releasing hs).1
  | uploading job id' archive => cases hc
  | executing x =>
    simp only [Stage.call?, Execution.call?] at hc
    split at hc <;> cases hc
  | done result => cases hc

theorem Upkeep.ends_of_step {settings : PoolSettings} {stopping : Bool} {u u' : Upkeep}
    {pool pool' : WarmPool} (hc : u.point.call? = some (.remove id))
    (h : u.step settings now stopping pool sig = some (u', pool')) :
    sig.EndsRemoval now u.point.wake? := by
  obtain ⟨point', _, hp⟩ := step_eq_some h
  obtain ⟨language, spec, point⟩ := u
  cases point with
  | provisioning provision =>
    obtain ⟨_, ⟨_, hq, _⟩ | ⟨_, hq, _⟩ | ⟨_, hq, _⟩⟩ := Point.step_provisioning hp <;>
      exact provision.ends_of_step (Option.some.inj hc) hq
  | discarding removal last => exact removal.ends_of_step (Point.step_discarding hp).2.1
  | emptying removal rest => exact removal.ends_of_step (Point.step_emptying hp).2.1
  | _ => cases hc

theorem Task.call?_of_removing {t : Task} (h : id ∈ t.removing) : t.call? = some (.remove id) := by
  obtain ⟨call, hcall, hid⟩ := Option.bind_eq_some_iff.1 (Option.mem_toList.1 h)
  cases call with
  | remove id' =>
    cases hid
    exact hcall
  | _ => cases hid

theorem Task.length_remainder (now : Instant) (t : Task) : (t.remainder now).length ≤ 1 := by
  cases t with
  | run r => exact Option.length_toList_le
  | _ => exact Nat.zero_le 1

namespace Supervisor

variable {s₀ s s' : Supervisor} {c : Config} {epoch : ℕ} {es : List Event} {e : Event} {i j k : ℕ}
  {P : Supervisor → Event → Prop}

/-- **A task that removes a container goes on only once the removal is over.** -/
theorem ends_of_stepTask {t : Task} (hc : t.call? = some (.remove id))
    (h : s.stepTask k t sig = some s') : sig.EndsRemoval s.now t.wake? := by
  cases t with
  | run r =>
    obtain ⟨r', hr, _⟩ := Option.map_eq_some_iff.1 h
    exact Run.ends_of_step hc hr
  | upkeep u =>
    simp only [stepTask] at h
    split at h
    · obtain ⟨⟨u', pool'⟩, hu, _⟩ := Option.map_eq_some_iff.1 h
      exact Upkeep.ends_of_step hc hu
    · cases h
  | closing c =>
    cases c with
    | removing removal rest languages => exact removal.ends_of_step (stepClosing_removing h).1
    | _ => cases hc
  | removal r =>
    simp only [stepTask] at h
    split at h
    · exact r.ends_of_step ‹_›
    · exact r.ends_of_step ‹_›
    · cases h
  | provision p =>
    simp only [stepTask] at h
    split at h
    · exact p.ends_of_step (Option.some.inj hc) ‹_›
    · exact p.ends_of_step (Option.some.inj hc) ‹_›
    · cases h
  | provided result => cases hc
  | _ => cases hc

/-! ### What was asked -/

/-- What every task waits for was asked. -/
structure Asked (s : Supervisor) : Prop where
  recorded : ∀ {k : ℕ} {t : Task} {call : Call}, s.tasks[k]? = some t → t.call? = some call →
    (k, call) ∈ s.calls

theorem asked_start (start : start? c epoch = some s) : s.Asked := by
  refine ⟨fun {k t call} ht hc => ?_⟩
  rw [start?_eq_some start] at ht
  obtain ⟨u, hu, rfl⟩ := List.mem_map.1 (List.mem_of_getElem? ht)
  obtain ⟨p, _, hp⟩ := mem_keepers hu
  rw [hp] at hc
  cases hc

theorem Asked.turn (hs : s.Asked) (h : Turn s s' e) : s'.Asked := by
  refine ⟨fun {k t call} ht hc => ?_⟩
  cases h with
  | quiet _ _ tasks _ _ calls => exact calls ▸ hs.recorded (tasks ▸ ht) hc
  | @cancel i r found _ tasks _ _ calls =>
    rw [tasks, List.getElem?_set] at ht
    rw [calls]
    split_ifs at ht with hk
    · cases ht
      subst hk
      exact hs.recorded found hc
    · exact hs.recorded ht hc
  | spawn _ _ _ _ _ tasks _ calls =>
    rw [tasks, List.getElem?_append] at ht
    rw [calls, List.mem_append, mem_callsOf]
    split_ifs at ht with hlt
    · exact Or.inr (hs.recorded ht hc)
    · obtain ⟨hk, rfl⟩ := List.getElem?_eq_some_iff.1 ht
      rw [List.length_singleton] at hk
      exact Or.inl ⟨by omega, by simpa using hc⟩
  | signal _ _ _ tasks calls =>
    rw [tasks, List.getElem?_set] at ht
    rw [calls, List.mem_append, mem_callsOf]
    split_ifs at ht with hk
    · cases ht
      exact Or.inl ⟨hk.symm, hc⟩
    · exact Or.inr (hs.recorded ht hc)
  | @drop i t₁ _ _ _ tasks _ _ calls =>
    rw [tasks, List.getElem?_append, List.length_set] at ht
    rw [calls, List.mem_append]
    split_ifs at ht with hlt
    · rw [List.getElem?_set] at ht
      split_ifs at ht
      · cases ht
        cases hc
      · exact Or.inr (hs.recorded ht hc)
    · have hone := t₁.length_remainder s.now
      have hlt' := (List.getElem?_eq_some_iff.1 ht).1
      exact Or.inl (List.mem_flatMap.2
        ⟨t, List.mem_of_getElem? ht, mem_callsOf.2 ⟨by omega, hc⟩⟩)

/-! ### Something that happened -/

/-- Among the events there is one at which something was the case. -/
def Happened (s₀ : Supervisor) (es : List Event) (P : Supervisor → Event → Prop) : Prop :=
  ∃ (pre : List Event) (e : Event) (post : List Event) (s : Supervisor),
    es = pre ++ e :: post ∧ s₀.after? pre = some s ∧ P s e

theorem happened_concat (after : s₀.after? es = some s) :
    Happened s₀ (es ++ [e]) P ↔ Happened s₀ es P ∨ P s e := by
  constructor
  · rintro ⟨pre, e', post, s₁, hes, hafter, hP⟩
    rcases List.eq_nil_or_concat post with rfl | ⟨post, last, rfl⟩
    · obtain ⟨rfl, he⟩ := List.append_inj' hes rfl
      cases he
      obtain rfl : s₁ = s := Option.some.inj (hafter.symm.trans after)
      exact Or.inr hP
    · have hes' : es ++ [e] = (pre ++ e' :: post) ++ [last] := by simpa using hes
      obtain ⟨rfl, _⟩ := List.append_inj' hes' rfl
      exact Or.inl ⟨pre, e', post, s₁, rfl, hafter, hP⟩
  · rintro (⟨pre, e', post, s₁, rfl, hafter, hP⟩ | hP)
    · exact ⟨pre, e', post ++ [e], s₁, by simp, hafter, hP⟩
    · exact ⟨es, e, [], s, rfl, after, hP⟩

/-- The container is idle, or in the hands of a task that looks after the pools. -/
def InStock (s : Supervisor) (id : ContainerId) : Prop :=
  id ∈ s.idle ∨ ∃ (k : ℕ) (t : Task), s.tasks[k]? = some t ∧ t.keeps = false ∧ id ∈ t.inHand

/-- A task that asked for the removal of the container is told that it is over, or gives up. -/
def RemovalEnds (id : ContainerId) (s : Supervisor) (e : Event) : Prop :=
  ∃ (k : ℕ) (sig : Signal) (t : Task), e = .signal k sig ∧ s.tasks[k]? = some t ∧
    (k, .remove id) ∈ s.calls ∧ sig.EndsRemoval s.now t.wake?

/-- The caller of a request to stop does not wait for its end. -/
def GivesUp (s : Supervisor) (e : Event) : Prop :=
  ∃ (k : ℕ) (c : Closing), e = .drop k ∧ s.tasks[k]? = some (.closing c) ∧ c ≠ .ended

/-- A run that is given an idle container has it to itself. -/
theorem leased?_begin (now stamp : ℕ) (job : Job) (id : ContainerId) :
    (Run.begin now stamp job (some id)).leased? = some id := by
  show (Run.acquired now stamp job id).leased? = some id
  unfold Run.acquired
  split <;> rfl

/-- An idle container stays where it is when a run begins, or the run has it. -/
theorem idle_beginRun (laid : s.Laid) (request : Request) (cancelled : Bool) (h : id ∈ s.idle) :
    id ∈ (s.beginRun request cancelled).idle ∨
      (s.beginRun request cancelled).Has s.tasks.length id := by
  unfold beginRun
  split
  · exact Or.inl (by rwa [spawn_eq])
  · rename_i job _
    split_ifs
    · obtain ⟨idle, pools, he, _, hcount, _⟩ := takeIdle_eq laid request.language
      simp only [he, spawn_eq]
      by_cases hid : id ∈ idle
      · cases hid
        exact Or.inr ⟨_, List.getElem?_concat_length, leased?_begin _ _ job id⟩
      · have hzero : idle.toList.count id = 0 := by simpa [List.count_eq_zero] using hid
        have hone := List.count_pos_iff.2 h
        rw [← hcount id, hzero, Nat.zero_add] at hone
        exact Or.inl (List.count_pos_iff.1 hone)
    · exact Or.inl (by rwa [spawn_eq])

theorem Goes.keeps {t t' : Task} {pools : List WarmPool} {unjoined : List ℕ}
    (h : s.Goes k sig t t' pools unjoined) : t'.keeps = t.keeps := by
  cases h <;> rfl

/-- A container in the pools' care that a task is told about stays there. -/
theorem InStock.signal {t t' : Task} (goes : s.Goes k sig t t' s'.pools s'.unjoined)
    (found : s'.tasks[k]? = some t')
    (h : id ∈ s.idle ∨ t.keeps = false ∧ (id ∈ t.holding ∨ sig.created? = some id)) :
    s'.InStock id := by
  have hbalance := goes.passes.balance id
  by_cases hkeeps : t.keeps = true
  · rw [hkeeps] at h
    refine Or.inl ?_
    rw [Supervisor.idle, (goes.passes.keeps hkeeps).2]
    exact h.resolve_right (by simp)
  · have hpos : 0 < t.holding.count id + (s.pools.flatMap (·.idle)).count id +
        sig.created?.toList.count id := by
      rcases h with h | ⟨_, h | h⟩
      · have := List.count_pos_iff.2 h
        rw [Supervisor.idle] at this
        omega
      · have := List.count_pos_iff.2 h
        omega
      · rw [h]
        simp
    by_cases hidle : id ∈ s'.idle
    · exact Or.inl hidle
    · rw [Supervisor.idle, ← List.count_eq_zero] at hidle
      refine Or.inr ⟨k, t', found, goes.keeps.trans (by simpa using hkeeps), ?_⟩
      exact List.count_pos_iff.1 (by omega)

/-- An idle container stays in stock, or a run has it. -/
theorem inStock_of_idle (laid : s.Laid) (ordinary : e.Ordinary) (hstep : s.step e = some s')
    (h : id ∈ s.idle) : s'.InStock id ∨ ∃ k, s'.Has k id := by
  have ht := turn_of_step laid ordinary hstep
  cases e with
  | run request cancelled =>
    cases hstep
    rcases idle_beginRun laid request cancelled h with hidle | hhas
    · exact Or.inl (Or.inl hidle)
    · exact Or.inr ⟨_, hhas⟩
  | close =>
    cases hstep
    exact Or.inl (Or.inl (by rwa [spawn_eq]))
  | abandon =>
    cases hstep
    exact Or.inl (Or.inl h)
  | advance moment =>
    simp only [step] at hstep
    split_ifs at hstep
    cases hstep
    exact Or.inl (Or.inl h)
  | cancel k =>
    cases ht with
    | quiet aside _ _ _ _ _ => cases aside
    | spawn aside _ _ _ _ _ _ _ => cases aside
    | cancel _ _ _ pools _ _ => exact Or.inl (Or.inl (by rwa [Supervisor.idle, pools]))
  | drop k =>
    cases ht with
    | quiet aside _ _ _ _ _ => cases aside
    | spawn aside _ _ _ _ _ _ _ => cases aside
    | drop _ _ _ _ pools _ _ => exact Or.inl (Or.inl (by rwa [Supervisor.idle, pools]))
  | signal k sig =>
    cases ht with
    | quiet aside _ _ _ _ _ => cases aside
    | spawn aside _ _ _ _ _ _ _ => cases aside
    | signal found goes _ tasks _ =>
      refine Or.inl (InStock.signal goes ?_ (Or.inl h))
      rw [tasks, List.getElem?_set_self (List.getElem?_eq_some_iff.1 found).1]
  | provision spec => cases ordinary
  | remove id => cases ordinary
  | push language id => cases ordinary
  | take language => cases ordinary
  | drain language => cases ordinary

/-- **A container for the pools stays in stock,** until a run has it or its removal is over. -/
theorem InStock.step (h : s.InStock id) (laid : s.Laid) (asked : s.Asked) (ordinary : e.Ordinary)
    (kept : ¬ s.GivesUp e) (hstep : s.step e = some s') :
    s'.InStock id ∨ (∃ k, s'.Has k id) ∨ RemovalEnds id s e := by
  rcases h with h | ⟨i, t, found, hkeeps, hid⟩
  · exact (inStock_of_idle laid ordinary hstep h).imp_right Or.inl
  · have hturn := turn_of_step laid ordinary hstep
    rcases hturn.task found with ⟨_, ht⟩ | ⟨r, rfl, _⟩ | ⟨sig, t', rfl, goes, ht⟩ | ⟨rfl, hkind, _⟩
    · exact Or.inl (Or.inr ⟨i, t, ht, hkeeps, hid⟩)
    · cases hkeeps
    · rcases List.mem_append.1 hid with hhold | hrem
      · exact Or.inl (InStock.signal goes ht (Or.inr ⟨hkeeps, Or.inl hhold⟩))
      · have hcall := Task.call?_of_removing hrem
        simp only [step, found] at hstep
        exact Or.inr (Or.inr ⟨i, sig, t, rfl, found, asked.recorded found hcall,
          ends_of_stepTask hcall hstep⟩)
    · rcases hkind with hrun | ⟨c, rfl⟩
      · cases t with
        | run r => cases hkeeps
        | _ => cases hrun
      · have hended : c = .ended := by
          by_contra hc
          exact kept ⟨i, c, rfl, found, hc⟩
        subst hended
        cases hid

/-! ### The request that takes the upkeep tasks over -/

/-- The request at place `j` takes over the upkeep tasks, before any other does. -/
def TakesOver (j : ℕ) (s : Supervisor) (e : Event) : Prop :=
  e = .signal j .proceed ∧ s.tasks[j]? = some (.closing .gathering) ∧
    ∀ {i : ℕ} {c : Closing}, s.tasks[i]? = some (.closing c) → c.hasGathered = false

/-- As long as it is there, the request at place `j` waits for every upkeep task that has not
ended. -/
def Oversees (s : Supervisor) (j : ℕ) : Prop :=
  ∃ t, s.tasks[j]? = some t ∧ ∀ c, t = .closing c → c.hasGathered = true ∧
    ∀ {k : ℕ} {u : Upkeep}, s.tasks[k]? = some (.upkeep u) → u.hasEnded = true ∨ k ∈ c.joins

/-- An upkeep task that has not ended after an event had not ended before. -/
theorem Turn.upkeep_before (laid : s.Laid) (h : Turn s s' e) {u' : Upkeep}
    (hu' : s'.tasks[k]? = some (.upkeep u')) (hlast : u'.hasEnded ≠ true) :
    ∃ u, s.tasks[k]? = some (.upkeep u) ∧ u.hasEnded ≠ true := by
  obtain ⟨u, hu⟩ := laid.upkeep_before (laid.turn h) h.languages hu'
  refine ⟨u, hu, fun hended => hlast ?_⟩
  rcases h.upkeep hu with ⟨hsame, _⟩ | ⟨_, _, _, _, _, _, hstep, _⟩
  · obtain rfl : u' = u := by simpa [hu'] using hsame
    exact hended
  · simp [Upkeep.step_of_hasEnded hended] at hstep

theorem Goes.oversees {t t' : Task} {pools : List WarmPool} {unjoined : List ℕ}
    (h : s.Goes k sig t t' pools unjoined) {c' : Closing} (hc : t' = .closing c') :
    ∃ c, t = .closing c ∧ (c.hasGathered = true → c'.hasGathered = true ∧
      ∀ i ∈ c.joins, i ∈ c'.joins ∨ s.hasEnded i = true) := by
  cases h with
  | gather _ => exact ⟨_, rfl, by rintro ⟨⟩⟩
  | sweep _ _ =>
    cases hc
    exact ⟨_, rfl, fun _ => ⟨hasGathered_sweep _ _ _, by simp [Closing.joins]⟩⟩
  | closing _ _ join gathered _ =>
    cases hc
    exact ⟨_, rfl, fun h => ⟨gathered.trans h, join⟩⟩
  | _ => cases hc

theorem Oversees.turn (laid : s.Laid) (h : s.Oversees j) (ht : Turn s s' e) : s'.Oversees j := by
  obtain ⟨t, found, hwaits⟩ := h
  rcases ht.task found with ⟨_, ht'⟩ | ⟨r, rfl, _, ht'⟩ | ⟨sig, t', rfl, goes, ht'⟩ | ⟨_, _, ht'⟩
  · refine ⟨t, ht', fun c hc => ⟨(hwaits c hc).1, fun {k u'} hu' => ?_⟩⟩
    by_cases hlast : u'.hasEnded = true
    · exact Or.inl hlast
    · obtain ⟨u, hu, hu_last⟩ := ht.upkeep_before laid hu' hlast
      exact Or.inr (((hwaits c hc).2 hu).resolve_left hu_last)
  · exact ⟨_, ht', by rintro c ⟨⟩⟩
  · refine ⟨t', ht', fun c' hc' => ?_⟩
    obtain ⟨c, hc, hon⟩ := goes.oversees hc'
    obtain ⟨hgathered, hjoined⟩ := hwaits c hc
    obtain ⟨hgathered', hjoins⟩ := hon hgathered
    refine ⟨hgathered', fun {k u'} hu' => ?_⟩
    by_cases hlast : u'.hasEnded = true
    · exact Or.inl hlast
    · obtain ⟨u, hu, hu_last⟩ := ht.upkeep_before laid hu' hlast
      refine Or.inr ((hjoins k ((hjoined hu).resolve_left hu_last)).resolve_right ?_)
      rwa [hasEnded_upkeep hu]
  · exact ⟨_, ht', by rintro c ⟨⟩⟩

/-- Who takes the upkeep tasks over waits for all that have not ended. -/
theorem oversees_of_takesOver (attended : s.Attended) (h : TakesOver j s e)
    (hstep : s.step e = some s') : s'.Oversees j := by
  obtain ⟨rfl, found, hfirst⟩ := h
  have hlt := (List.getElem?_eq_some_iff.1 found).1
  simp only [step, found, stepTask] at hstep
  obtain ⟨_, rfl⟩ := stepClosing_gathering hstep
  rw [goOn_eq]
  refine ⟨_, List.getElem?_set_self hlt, ?_⟩
  rintro _ ⟨⟩
  refine ⟨rfl, fun {k u} hu => ?_⟩
  have hu₀ : s.tasks[k]? = some (.upkeep u) := by
    rw [List.getElem?_set] at hu
    split_ifs at hu
    · cases hu
    · exact hu
  -- nobody else waits for an upkeep task yet
  refine (attended.waited hu₀).imp_right fun hpending => ?_
  rcases mem_pending.1 hpending with hunjoined | ⟨i, t, ht, hi⟩
  · exact hunjoined
  · cases t with
    | closing c =>
      have hc := hfirst ht
      cases c with
      | joining tasks => cases hc
      | _ => cases hi
    | _ => cases hi

/-! ### When a request has returned -/

/-- Every upkeep task has ended, and every pool is empty. -/
structure Stopped (s : Supervisor) : Prop where
  upkeeps : ∀ {k : ℕ} {u : Upkeep}, s.tasks[k]? = some (.upkeep u) → u.hasEnded = true
  pools : ∀ p ∈ s.pools, p.idle = []

/-- Where all upkeep tasks have ended the pools are empty. -/
theorem stopped_of_upkeeps (laid : s.Laid) (attended : s.Attended)
    (h : ∀ {k : ℕ} {u : Upkeep}, s.tasks[k]? = some (.upkeep u) → u.hasEnded = true) :
    s.Stopped := by
  refine ⟨h, fun p hp => ?_⟩
  obtain ⟨i, hi⟩ := List.mem_iff_getElem?.1 hp
  obtain ⟨u, hu, _⟩ := laid.kept hi
  exact attended.emptied hu (Upkeep.hasLeft_of_hasEnded (h hu)) hi

/-- Once all is stopped, what is in stock is in the hands of a request to stop. -/
theorem Stopped.inStock (laid : s.Laid) (h : s.Stopped) (hid : s.InStock id) :
    ∃ (i : ℕ) (c : Closing), s.tasks[i]? = some (.closing c) ∧ c ≠ .ended ∧
      id ∈ (Task.closing c).inHand := by
  rcases hid with hid | ⟨k, t, found, hkeeps, hid⟩
  · obtain ⟨p, hp, hid⟩ := List.mem_flatMap.1 hid
    rw [h.pools p hp] at hid
    cases hid
  · cases t with
    | upkeep u =>
      have hended := h.upkeeps found
      rw [Upkeep.inHand_eq] at hid
      rw [Upkeep.point_of_hasEnded hended] at hid
      cases hid
    | closing c =>
      refine ⟨k, c, found, ?_, hid⟩
      rintro rfl
      cases hid
    | provision p => exact absurd (List.mem_of_getElem? found) (laid.no_provision p)
    | provided result => cases hid
    | _ => cases hkeeps

/-- An upkeep task gets the container from the engine. -/
def Stocks (id : ContainerId) (s : Supervisor) (e : Event) : Prop :=
  ∃ (k : ℕ) (u : Upkeep), e = .signal k (.reply (.created (.ok id))) ∧
    s.tasks[k]? = some (.upkeep u)

/-- At some moment a run had the container. -/
def Acquired (s₀ : Supervisor) (es : List Event) (id : ContainerId) : Prop :=
  ∃ (pre : List Event) (s : Supervisor) (k : ℕ), AtMoment s₀ es pre s ∧ s.Has k id

theorem Acquired.append (h : Acquired s₀ es id) (more : List Event) :
    Acquired s₀ (es ++ more) id := by
  obtain ⟨pre, s, k, ⟨hpre, after⟩, has⟩ := h
  exact ⟨pre, s, k, ⟨hpre.trans (List.prefix_append _ _), after⟩, has⟩

/-- What holds as long as everybody who asks to stop waits for the end of it. -/
structure Kept (s₀ : Supervisor) (es : List Event) (s : Supervisor) : Prop where
  attended : s.Attended
  asked : s.Asked
  stock : ∀ {id}, Happened s₀ es (Stocks id) →
    Acquired s₀ es id ∨ Happened s₀ es (RemovalEnds id) ∨ s.InStock id
  oversees : ∀ {j}, Happened s₀ es (TakesOver j) → s.Oversees j

theorem not_happened_nil : ¬ Happened s₀ [] P := by
  rintro ⟨pre, e, post, s, hes, _⟩
  simp at hes

theorem kept_start (start : start? c epoch = some s₀) : Kept s₀ [] s₀ where
  attended := attended_start start
  asked := asked_start start
  stock := fun h => absurd h not_happened_nil
  oversees := fun h => absurd h not_happened_nil

/-- A container that an upkeep task gets is in stock from then on. -/
theorem inStock_of_stocks (ht : Turn s s' e) (h : Stocks id s e) : s'.InStock id := by
  obtain ⟨k, u, rfl, found⟩ := h
  rcases ht.task found with ⟨hne, _⟩ | ⟨r, hr, _⟩ | ⟨sig, t', he, goes, ht'⟩ | ⟨he, _⟩
  · exact absurd rfl hne
  · cases hr
  · cases he
    exact InStock.signal goes ht' (Or.inr ⟨rfl, Or.inr rfl⟩)
  · cases he

theorem Kept.turn (laid : s.Laid) (after : s₀.after? es = some s) (h : Kept s₀ es s)
    (ordinary : e.Ordinary) (hstep : s.step e = some s') (ht : Turn s s' e)
    (waits : ¬ s.GivesUp e) : Kept s₀ (es ++ [e]) s' where
  attended := h.attended.turn_of_drop laid ht fun {k t} he hk => by
    cases t with
    | closing c =>
      have hended : c = .ended := by
        by_contra hc
        exact waits ⟨k, c, he, hk, hc⟩
      rw [hended]
      rfl
    | _ => rfl
  asked := h.asked.turn ht
  stock := fun {id} hid => by
    have after' : s₀.after? (es ++ [e]) = some s' := after?_concat_eq_some.2 ⟨s, after, hstep⟩
    rw [happened_concat after]
    rcases (happened_concat after).1 hid with hid | hid
    · rcases h.stock hid with hrun | hgone | hstock
      · exact Or.inl (hrun.append [e])
      · exact Or.inr (Or.inl (Or.inl hgone))
      · rcases hstock.step laid h.asked ordinary waits hstep with hstock | ⟨k, has⟩ | hends
        · exact Or.inr (Or.inr hstock)
        · exact Or.inl ⟨es ++ [e], s', k, ⟨List.prefix_refl _, after'⟩, has⟩
        · exact Or.inr (Or.inl (Or.inr hends))
    · exact Or.inr (Or.inr (inStock_of_stocks ht hid))
  oversees := fun {j} hj => by
    rcases (happened_concat after).1 hj with hj | hj
    · exact (h.oversees hj).turn laid ht
    · exact oversees_of_takesOver h.attended hj hstep

theorem kept_after (start : start? c epoch = some s₀) (ordinary : ∀ e ∈ es, e.Ordinary)
    (after : s₀.after? es = some s) (waits : ¬ Happened s₀ es GivesUp) :
    s.Laid ∧ Kept s₀ es s := by
  obtain ⟨laid, kept⟩ := after?_induction Event.Ordinary
    (fun es s => ¬ Happened s₀ es GivesUp → Kept s₀ es s) (fun h => h) (laid_start start)
    (fun _ => kept_start start) (fun laid hafter hP he hstep ht hwaits => by
      rw [happened_concat hafter, not_or] at hwaits
      exact (hP hwaits.1).turn laid hafter he hstep ht hwaits.2) ordinary after
  exact ⟨laid, kept waits⟩

/-- **What a return says.** Let nobody who asks to stop give up before the request has returned, and
let the request at place `j` have returned. If all requests made so far have returned, then every
upkeep task has ended, every pool is empty, and every container that an upkeep task got from the
engine was acquired by a run, or its removal was asked for and has been answered or given up. If the
request was the one that took the upkeep tasks over, the same is the case whoever else is under way,
but that a container may be in the hands of another request that has not returned. -/
theorem stopped_of_returned (start : start? c epoch = some s₀) (ordinary : ∀ e ∈ es, e.Ordinary)
    (after : s₀.after? es = some s) (waits : ¬ Happened s₀ es GivesUp)
    (returned : s.tasks[j]? = some (.closing .ended)) :
    ((∀ (i : ℕ) (c : Closing), s.tasks[i]? = some (.closing c) → c = .ended) →
        s.Stopped ∧ ∀ id, Happened s₀ es (Stocks id) →
          Acquired s₀ es id ∨ Happened s₀ es (RemovalEnds id)) ∧
      (Happened s₀ es (TakesOver j) →
        s.Stopped ∧ ∀ id, Happened s₀ es (Stocks id) →
          Acquired s₀ es id ∨ Happened s₀ es (RemovalEnds id) ∨
            ∃ (i : ℕ) (c : Closing), s.tasks[i]? = some (.closing c) ∧ c ≠ .ended ∧
              id ∈ (Task.closing c).inHand) := by
  obtain ⟨laid, kept⟩ := kept_after start ordinary after waits
  constructor
  · intro all
    have stopped : s.Stopped := stopped_of_upkeeps laid kept.attended fun {k u} hu => by
      refine (kept.attended.waited hu).resolve_right fun hpending => ?_
      rcases mem_pending.1 hpending with hunjoined | ⟨i, t, ht, hi⟩
      · rw [kept.attended.gathered returned rfl] at hunjoined
        cases hunjoined
      · cases t with
        | closing c =>
          rw [all i c ht] at hi
          cases hi
        | _ => cases hi
    refine ⟨stopped, fun id hid => ?_⟩
    rcases kept.stock hid with hrun | hgone | hstock
    · exact Or.inl hrun
    · exact Or.inr hgone
    · obtain ⟨i, c, hc, hne, _⟩ := stopped.inStock laid hstock
      exact absurd (all i c hc) hne
  · intro first
    obtain ⟨t, found, hwaits⟩ := kept.oversees first
    rw [returned] at found
    cases found
    have stopped : s.Stopped := stopped_of_upkeeps laid kept.attended fun hu =>
      ((hwaits .ended rfl).2 hu).resolve_right List.not_mem_nil
    exact ⟨stopped, fun id hid => (kept.stock hid).imp_right (Or.imp_right (stopped.inStock laid))⟩

theorem not_givesUp (h : ∀ k, Event.drop k ∉ es) : ¬ Happened s₀ es GivesUp := by
  rintro ⟨pre, e, post, s, rfl, _, k, c, rfl, _⟩
  exact h k (by simp)

/-- A container is stored, and the pools are stopped. -/
def storedThenStopped : List Event :=
  [.advance 100, .signal 0 .timer, .signal 0 .proceed, .signal 0 (.reply (.created (.ok ⟨"a"⟩))),
    .signal 0 (.reply (.done (.ok ()))), .signal 0 .proceed, .signal 0 .proceed, .close,
    .signal 1 .proceed, .signal 1 .proceed, .signal 0 .notice, .signal 0 .proceed,
    .signal 0 (.reply (.done (.ok ()))), .signal 1 .proceed, .signal 1 .proceed,
    .signal 1 .proceed]

theorem closing_of_pair {u : Upkeep} {c c' : Closing}
    (h : [Task.upkeep u, Task.closing c'][i]? = some (.closing c)) : c = c' := by
  rcases i with _ | _ | i <;> cases h
  rfl

theorem stopped_of_returned_stored : ∃ s₀ s, start? .small 0 = some s₀ ∧
    s₀.after? storedThenStopped = some s ∧ s.tasks[1]? = some (.closing .ended) ∧ s.Stopped ∧
    Happened s₀ storedThenStopped (TakesOver 1) ∧
    Happened s₀ storedThenStopped (Stocks ⟨"a"⟩) ∧
    (Acquired s₀ storedThenStopped ⟨"a"⟩ ∨ Happened s₀ storedThenStopped (RemovalEnds ⟨"a"⟩)) := by
  have hs : ∃ s₀ s₁ s u₁ u, start? .small 0 = some s₀ ∧
      s₀.after? (storedThenStopped.take 9) = some s₁ ∧
      s₁.tasks = [.upkeep u₁, .closing .gathering] ∧ s₀.after? storedThenStopped = some s ∧
      s.tasks = [.upkeep u, .closing .ended] ∧ Happened s₀ storedThenStopped (Stocks ⟨"a"⟩) :=
    ⟨_, _, _, _, _, rfl, rfl, rfl, rfl, rfl, storedThenStopped.take 3, _, storedThenStopped.drop 4,
      _, rfl, rfl, 0, _, rfl, rfl⟩
  obtain ⟨s₀, s₁, s, u₁, u, start, after₁, tasks₁, after, tasks, stocks⟩ := hs
  have ordinary : ∀ e ∈ storedThenStopped, e.Ordinary := by
    simp [storedThenStopped, Event.Ordinary]
  have waits : ¬ Happened s₀ storedThenStopped GivesUp :=
    not_givesUp (by simp [storedThenStopped])
  have returned : s.tasks[1]? = some (.closing .ended) := by rw [tasks]; rfl
  have first : Happened s₀ storedThenStopped (TakesOver 1) := by
    refine ⟨storedThenStopped.take 9, _, storedThenStopped.drop 10, s₁, rfl, after₁, rfl,
      by rw [tasks₁]; rfl, fun {i c} hc => ?_⟩
    have hgathering : c = .gathering := closing_of_pair (tasks₁ ▸ hc)
    rw [hgathering]
    rfl
  obtain ⟨all, one⟩ := stopped_of_returned start ordinary after waits returned
  exact ⟨s₀, s, start, after, returned, (one first).1, first, stocks,
    (all fun i c hc => closing_of_pair (tasks ▸ hc)).2 _ stocks⟩

/-- A request to stop comes while another waits for the upkeep task, which is providing a
container. -/
def overlapping : List Event :=
  [.advance 100, .signal 0 .timer, .signal 0 .proceed, .close, .signal 1 .proceed,
    .signal 1 .proceed, .close, .signal 2 .proceed, .signal 2 .proceed, .signal 2 .proceed,
    .signal 2 .proceed]

/-- A request to stop that comes while another is under way returns before the upkeep tasks have
ended. -/
theorem return_of_overlapping : ¬ ∀ (c : Config) (epoch : ℕ) (s₀ s : Supervisor) (es : List Event)
    (j : ℕ), start? c epoch = some s₀ → (∀ e ∈ es, e.Ordinary) → s₀.after? es = some s →
    ¬ Happened s₀ es GivesUp → s.tasks[j]? = some (.closing .ended) →
      s.Stopped ∧ ∀ id, Happened s₀ es (Stocks id) →
        Acquired s₀ es id ∨ Happened s₀ es (RemovalEnds id) := by
  intro claim
  have hs : ∃ s₀ s u, start? .small 0 = some s₀ ∧ s₀.after? overlapping = some s ∧
      s.tasks[2]? = some (.closing .ended) ∧ s.tasks[0]? = some (.upkeep u) ∧
      u.hasEnded = false :=
    ⟨_, _, _, rfl, rfl, rfl, rfl, rfl⟩
  obtain ⟨s₀, s, u, start, after, returned, keeper, going⟩ := hs
  have ordinary : ∀ e ∈ overlapping, e.Ordinary := by simp [overlapping, Event.Ordinary]
  have stopped := (claim .small 0 s₀ s overlapping 2 start ordinary after
    (not_givesUp (by simp [overlapping])) returned).1
  rw [stopped.upkeeps keeper] at going
  cases going

end Supervisor

end Isolate
