import Isolate.Proofs.Run.Course
import Isolate.Proofs.Supervisor.Turn

/-!
# What a run is told

Whatever happens in a supervisor, a run goes on only when it is told something itself: what others
do reaches it through its own signals alone. So what becomes of a run can be read off the signals
that it was told, with the moment of each and whether the run was cancelled by then.

* `Moves`, `Keeps`, `moves_of_step`: what any event at all does to the tasks and the calls, and what
  it leaves as it is;
* `Frame`: what may be done before a task goes on or begins;
* `heard`: what a run is told in the course of events;
* `askedBy`: what a task asked the engine;
* `run_induction`: what every signal to a run preserves holds after any events.
-/

namespace Isolate

namespace Supervisor

variable {s s' s₀ b : Supervisor} {e : Event} {j k : ℕ} {sig : Signal}

/-! ### Any event -/

/-- What any event does to the tasks and the calls, also one that is not ordinary. -/
inductive Moves (s s' : Supervisor) : Event → Prop
  | aside {e : Event} (aside : e.task? = none) (tasks : s'.tasks = s.tasks)
      (calls : s'.calls = s.calls) (now : s.now ≤ s'.now)
      (prompt : s'.now = s.now ∨ ∀ t ∈ s.tasks, ∀ wake ∈ t.wake?, s'.now ≤ wake) : Moves s s' e
  | spawn {e : Event} {t : Task} (aside : e.task? = none) (tasks : s'.tasks = s.tasks ++ [t])
      (calls : s'.calls = callsOf s.tasks.length t ++ s.calls) (now : s'.now = s.now) : Moves s s' e
  | cancel {k : ℕ} {r : Run} (found : s.tasks[k]? = some (.run r))
      (tasks : s'.tasks = s.tasks.set k (.run { r with cancelled := true }))
      (calls : s'.calls = s.calls) (now : s'.now = s.now) : Moves s s' (.cancel k)
  | signal {k : ℕ} {sig : Signal} {t t' : Task} (found : s.tasks[k]? = some t)
      (goes : ∀ r, t = .run r → ∃ r', t' = .run r' ∧ r.step s.now s.stamp sig = some r')
      (tasks : s'.tasks = s.tasks.set k t') (calls : s'.calls = callsOf k t' ++ s.calls)
      (now : s'.now = s.now) : Moves s s' (.signal k sig)
  | drop {k : ℕ} {more : List Task} (tasks : s'.tasks = s.tasks.set k .over ++ more)
      (calls : s'.calls = more.flatMap (callsOf s.tasks.length) ++ s.calls)
      (one : more.length ≤ 1) (now : s'.now = s.now) : Moves s s' (.drop k)

/-- The pools afterwards are those of before, or one of them has been put back, perhaps after an
operation on it. -/
inductive Handles (s : Supervisor) : List WarmPool → Prop
  | nothing : Handles s s.pools
  | puts {pool pool' : WarmPool} (found : pool ∈ s.pools)
      (performed : pool' = pool ∨ ∃ op, pool' = (pool.perform op).2) :
      Handles s (s.setPool pool').pools

/-- What holds of every pool, and after every operation on a pool of which it holds, still does. -/
theorem Handles.forall {P : WarmPool → Prop} {pools : List WarmPool} (h : Handles s pools)
    (before : ∀ pool ∈ s.pools, P pool) (perform : ∀ pool op, P pool → P (pool.perform op).2) :
    ∀ pool ∈ pools, P pool := by
  cases h with
  | nothing => exact before
  | @puts pool pool' found performed =>
    have hpool : P pool' := by
      rcases performed with rfl | ⟨op, rfl⟩
      · exact before _ found
      · exact perform _ op (before _ found)
    intro p hp
    obtain ⟨q, hq, rfl⟩ := List.mem_map.1 hp
    split_ifs
    · exact hpool
    · exact before q hq

theorem languages_setPool (pool : WarmPool) :
    (s.setPool pool).pools.map (·.language) = s.pools.map (·.language) := by
  simp only [setPool, List.map_map]
  refine List.map_congr_left fun p _ => ?_
  simp only [Function.comp]
  split_ifs with h
  · exact h.symm
  · rfl

theorem Handles.languages {pools : List WarmPool} (h : Handles s pools) :
    pools.map (·.language) = s.pools.map (·.language) := by
  cases h with
  | nothing => rfl
  | puts _ _ => exact languages_setPool _

/-- What every event leaves as it is. The sign to stop is never taken back, and nothing happens to a
pool but its own operations. -/
structure Keeps (s s' : Supervisor) : Prop where
  config : s'.config = s.config
  epoch : s'.epoch = s.epoch
  stopping : s.stopping = true → s'.stopping = true
  handles : Handles s s'.pools

/-- The sign to stop had not been given before if it is not given afterwards. -/
theorem Keeps.running (h : Keeps s s') (running : s'.stopping = false) : s.stopping = false :=
  Bool.eq_false_iff.2 (mt h.stopping (Bool.eq_false_iff.1 running))

/-- What is done before a task goes on or begins concerns neither the tasks nor the clock. -/
structure Frame (s s₁ : Supervisor) : Prop where
  tasks : s₁.tasks = s.tasks
  calls : s₁.calls = s.calls
  now : s₁.now = s.now
  keeps : Keeps s s₁

namespace Frame

variable {s₁ : Supervisor} {t t' : Task} {pool : WarmPool} {language : String}

theorem refl (s : Supervisor) : Frame s s := ⟨rfl, rfl, rfl, rfl, rfl, id, .nothing⟩

theorem setPool {pool' : WarmPool} (found : s.pool? language = some pool)
    (performed : pool' = pool ∨ ∃ op, pool' = (pool.perform op).2) : Frame s (s.setPool pool') :=
  ⟨rfl, rfl, rfl, rfl, rfl, id, .puts (List.mem_of_find?_eq_some found) performed⟩

theorem perform (found : s.pool? language = some pool) (op : WarmPool.Operation) :
    Frame s (s.setPool (pool.perform op).2) :=
  setPool found (Or.inr ⟨op, rfl⟩)

theorem takeIdle (s : Supervisor) (language : String) : Frame s (s.takeIdle language).2 := by
  unfold Supervisor.takeIdle
  split
  · exact perform ‹_› .take
  · exact refl s

/-- Nothing more happens. -/
theorem moves (frame : Frame s s') (aside : e.task? = none) : Moves s s' e ∧ Keeps s s' :=
  ⟨.aside aside frame.tasks frame.calls frame.now.ge (Or.inl frame.now), frame.keeps⟩

/-- A task goes on. -/
theorem goOn (frame : Frame s s₁) (found : s.tasks[k]? = some t)
    (goes : ∀ r, t = .run r → ∃ r', t' = .run r' ∧ r.step s.now s.stamp sig = some r') :
    Moves s (s₁.goOn k t') (.signal k sig) ∧ Keeps s (s₁.goOn k t') := by
  obtain ⟨tasks, calls, now, keeps⟩ := frame
  rw [goOn_eq]
  exact ⟨.signal found goes (by rw [← tasks]) (by rw [← calls]) now,
    keeps.config, keeps.epoch, keeps.stopping, keeps.handles⟩

/-- A task begins. -/
theorem spawn (frame : Frame s s₁) (aside : e.task? = none) :
    Moves s (s₁.spawn t) e ∧ Keeps s (s₁.spawn t) := by
  obtain ⟨tasks, calls, now, keeps⟩ := frame
  rw [spawn_eq]
  exact ⟨.spawn aside (by rw [← tasks]) (by rw [← calls, ← tasks]) now,
    keeps.config, keeps.epoch, keeps.stopping, keeps.handles⟩

end Frame

theorem moves_of_stepTask {t : Task} (found : s.tasks[k]? = some t)
    (h : s.stepTask k t sig = some s') : Moves s s' (.signal k sig) ∧ Keeps s s' := by
  have frame := Frame.refl s
  cases t with
  | run r =>
    obtain ⟨r', hr, rfl⟩ := Option.map_eq_some_iff.1 h
    refine frame.goOn found ?_
    rintro _ ⟨⟩
    exact ⟨r', rfl, hr⟩
  | upkeep u =>
    simp only [stepTask] at h
    split at h
    · next pool hpool =>
      obtain ⟨⟨u', pool'⟩, hu, rfl⟩ := Option.map_eq_some_iff.1 h
      exact (Frame.setPool hpool (Upkeep.pool_of_step hu)).goOn found (by rintro r ⟨⟩)
    · cases h
  | closing c =>
    have goes : ∀ t' r, Task.closing c = .run r →
        ∃ r', t' = Task.run r' ∧ r.step s.now s.stamp sig = some r' := by rintro t' r ⟨⟩
    cases c with
    | signalling =>
      obtain ⟨_, rfl⟩ := stepClosing_signalling h
      have sign : Frame s { s with stopping := true } :=
        ⟨rfl, rfl, rfl, rfl, rfl, fun _ => rfl, .nothing⟩
      exact sign.goOn found (goes _)
    | gathering =>
      obtain ⟨_, rfl⟩ := stepClosing_gathering h
      have gathered : Frame s { s with unjoined := [] } := ⟨rfl, rfl, rfl, rfl, rfl, id, .nothing⟩
      exact gathered.goOn found (goes _)
    | joining tasks =>
      obtain ⟨_, ⟨_, rfl⟩ | ⟨task, rest, _, _, rfl⟩⟩ := stepClosing_joining h
      · exact frame.goOn found (goes _)
      · exact frame.goOn found (goes _)
    | sweeping languages =>
      obtain ⟨_, ⟨_, rfl⟩ | ⟨language, rest, _, ⟨pool, hpool, rfl⟩ | ⟨_, rfl⟩⟩⟩ :=
        stepClosing_sweeping h
      · exact frame.goOn found (goes _)
      · exact (Frame.perform hpool .drain).goOn found (goes _)
      · exact frame.goOn found (goes _)
    | removing removal rest languages =>
      obtain ⟨_, rfl⟩ := stepClosing_removing h
      exact frame.goOn found (goes _)
    | ended => simp [stepTask, stepClosing_ended] at h
  | removal r =>
    simp only [stepTask] at h
    split at h <;> cases h
    · exact frame.goOn found (by rintro r ⟨⟩)
    · exact frame.goOn found (by rintro r ⟨⟩)
  | provision p =>
    simp only [stepTask] at h
    split at h <;> cases h
    · exact frame.goOn found (by rintro r ⟨⟩)
    · exact frame.goOn found (by rintro r ⟨⟩)
  | _ => cases h

/-- **Nothing else can happen to a supervisor,** also if somebody reaches into the pools. -/
theorem moves_of_step (h : s.step e = some s') : Moves s s' e ∧ Keeps s s' := by
  have frame := Frame.refl s
  cases e with
  | run request cancelled =>
    cases h
    unfold beginRun
    split
    · exact frame.spawn rfl
    · split_ifs
      · exact (Frame.takeIdle s request.language).spawn rfl
      · exact frame.spawn rfl
  | close =>
    cases h
    exact frame.spawn rfl
  | provision spec =>
    cases h
    exact frame.spawn rfl
  | remove id =>
    cases h
    exact frame.spawn rfl
  | abandon =>
    cases h
    exact Frame.moves ⟨rfl, rfl, rfl, rfl, rfl, fun _ => rfl, .nothing⟩ rfl
  | cancel k =>
    simp only [step] at h
    split at h <;> cases h
    exact ⟨.cancel ‹_› rfl rfl rfl, rfl, rfl, id, .nothing⟩
  | drop k =>
    simp only [step] at h
    split at h <;> cases h
    · rename_i r found
      unfold dropRun
      cases r.stage.leased? with
      | none =>
        rw [goOn_eq]
        exact ⟨.drop (List.append_nil _).symm rfl (Nat.zero_le 1) rfl, rfl, rfl, id, .nothing⟩
      | some removed =>
        simp only [goOn_eq, spawn_eq, List.length_set]
        exact ⟨.drop rfl (by simp [callsOf, Task.call?]) le_rfl rfl, rfl, rfl, id, .nothing⟩
    · rw [goOn_eq]
      exact ⟨.drop (List.append_nil _).symm rfl (Nat.zero_le 1) rfl, rfl, rfl, id, .nothing⟩
  | signal k sig =>
    simp only [step] at h
    split at h
    · exact moves_of_stepTask ‹_› h
    · cases h
  | advance moment =>
    simp only [step] at h
    split_ifs at h with hm
    cases h
    refine ⟨.aside rfl rfl rfl hm.1 (Or.inr fun t ht wake hw => ?_), rfl, rfl, id, .nothing⟩
    have hle := List.all_eq_true.1 hm.2 t ht
    rw [Option.mem_def.1 hw] at hle
    simpa using hle
  | push language id =>
    simp only [step] at h
    split at h
    · next pool hpool =>
      obtain ⟨pool', hpush, rfl⟩ := Option.map_eq_some_iff.1 h
      have stored : pool' = (pool.perform (.push id)).2 := by rw [WarmPool.perform, hpush]
      exact (Frame.setPool hpool (Or.inr ⟨_, stored⟩)).moves rfl
    · cases h
  | take language =>
    simp only [step] at h
    split at h <;> cases h
    exact (Frame.perform ‹_› .take).moves rfl
  | drain language =>
    simp only [step] at h
    split at h <;> cases h
    exact (Frame.perform ‹_› .drain).moves rfl

/-! ### What a task asks for -/

/-- The calls of one task among all calls, the first one first. -/
def ofTask (k : ℕ) (calls : List (ℕ × Call)) : List Call :=
  (calls.reverse.filter (·.1 == k)).map (·.2)

/-- What a task has asked the engine, the first call first. -/
def askedBy (s : Supervisor) (k : ℕ) : List Call := ofTask k s.calls

theorem ofTask_append (k : ℕ) (new old : List (ℕ × Call)) :
    ofTask k (new ++ old) = ofTask k old ++ ofTask k new := by
  simp [ofTask]

theorem ofTask_callsOf_self (k : ℕ) (t : Task) : ofTask k (callsOf k t) = t.call?.toList := by
  unfold callsOf
  cases t.call? <;> simp [ofTask]

theorem ofTask_eq_nil {calls : List (ℕ × Call)} (h : ∀ c ∈ calls, c.1 ≠ k) :
    ofTask k calls = [] := by
  simpa [ofTask] using fun a c hc => h (a, c) hc

theorem ofTask_callsOf_of_ne (h : j ≠ k) (t : Task) : ofTask k (callsOf j t) = [] :=
  ofTask_eq_nil fun _ hc => (mem_callsOf.1 hc).1 ▸ h

/-- Only tasks that there are have asked for something. -/
def Indexed (s : Supervisor) : Prop := ∀ c ∈ s.calls, c.1 < s.tasks.length

theorem Indexed.moves (hs : s.Indexed) (h : Moves s s' e) : s'.Indexed := by
  intro c hc
  cases h with
  | aside _ tasks calls _ _ =>
    rw [tasks]
    exact hs c (calls ▸ hc)
  | spawn _ tasks calls _ =>
    rw [tasks, List.length_append]
    rw [calls] at hc
    rcases List.mem_append.1 hc with hc | hc
    · rw [(mem_callsOf.1 hc).1]
      exact Nat.lt_succ_self _
    · exact Nat.lt_add_right _ (hs c hc)
  | cancel _ tasks calls _ =>
    rw [tasks, List.length_set]
    exact hs c (calls ▸ hc)
  | signal found _ tasks calls _ =>
    rw [tasks, List.length_set]
    rw [calls] at hc
    rcases List.mem_append.1 hc with hc | hc
    · rw [(mem_callsOf.1 hc).1]
      exact (List.getElem?_eq_some_iff.1 found).1
    · exact hs c hc
  | drop tasks calls _ _ =>
    rw [tasks, List.length_append, List.length_set]
    rw [calls] at hc
    rcases List.mem_append.1 hc with hc | hc
    · obtain ⟨t, ht, hc⟩ := List.mem_flatMap.1 hc
      rw [(mem_callsOf.1 hc).1]
      exact Nat.lt_add_of_pos_right (List.length_pos_of_mem ht)
    · exact Nat.lt_add_right _ (hs c hc)

/-- What every event preserves holds after any events. -/
theorem after?_preserves {P : Supervisor → Prop} {es : List Event}
    (step : ∀ {s e s'}, P s → s.step e = some s' → P s') (start : P s₀)
    (after : s₀.after? es = some s) : P s := by
  induction es generalizing s₀ with
  | nil =>
    cases after
    exact start
  | cons e es ih =>
    rw [after?_cons] at after
    obtain ⟨s₁, hstep, hrest⟩ := Option.bind_eq_some_iff.1 after
    exact ih (step start hstep) hrest

theorem indexed_after {c : Config} {epoch : ℕ} {es : List Event} (start : start? c epoch = some s₀)
    (after : s₀.after? es = some s) : s.Indexed ∧ s.config = c := by
  refine after?_preserves (P := fun s => s.Indexed ∧ s.config = c) (fun hs hstep => ?_) ?_ after
  · obtain ⟨moves, keeps⟩ := moves_of_step hstep
    exact ⟨hs.1.moves moves, keeps.config.trans hs.2⟩
  · rw [start?_eq_some start]
    refine ⟨fun c hc => ?_, rfl⟩
    cases hc

end Supervisor

/-! ### What a run is told -/

/-- What an event tells the task at place `k`, whose caller has cancelled it or not. -/
def Event.told (k : ℕ) (cancelled : Bool) (s : Supervisor) : Event → List Told
  | .signal j sig => if j = k then [⟨s.now, s.stamp, cancelled, sig⟩] else []
  | _ => []

/-- Whether the caller has cancelled the task at place `k` after an event. -/
def Event.cancels (k : ℕ) (cancelled : Bool) : Event → Bool
  | .cancel j => cancelled || j == k
  | _ => cancelled

namespace Supervisor

variable {s s' b : Supervisor} {e : Event} {k : ℕ} {cancelled : Bool} {ts : List Told}
  {es : List Event}

/-- What the task at place `k` is told in the course of events. -/
def heard (k : ℕ) : Bool → Supervisor → List Event → List Told
  | _, _, [] => []
  | cancelled, s, e :: es =>
    e.told k cancelled s ++ match s.step e with
      | some s' => heard k (e.cancels k cancelled) s' es
      | none => []

/-- There is a run at place `k` that was told something, and a property holds of what it was told,
what it asked for, the moment of the last signal and the stage that it has come to. No time has gone
by since then beyond the moment that the run waits for. -/
def Follows (P : List Told → List Call → Instant → Run.Stage → Prop) (s : Supervisor) (k : ℕ)
    (cancelled : Bool) (ts : List Told) : Prop :=
  ∃ stage now, s.tasks[k]? = some (.run ⟨cancelled, stage⟩) ∧ now ≤ s.now ∧
    (∀ wake ∈ stage.wake?, s.now ≤ max now wake) ∧ P ts (s.askedBy k) now stage

variable {P : List Told → List Call → Instant → Run.Stage → Prop}

theorem Follows.move
    (tell : ∀ {ts calls now t stage stage'}, P ts calls now stage → now ≤ t.now →
      (∀ wake ∈ stage.wake?, t.now ≤ max now wake) →
      stage.step t.now t.stamp t.cancelled t.signal = some stage' →
        P (ts ++ [t]) (calls ++ stage'.call?.toList) t.now stage')
    (hs : Follows P s k cancelled ts) (kept : e ≠ .drop k) (h : Moves s s' e) :
    Follows P s' k (e.cancels k cancelled) (ts ++ e.told k cancelled s) := by
  obtain ⟨stage, now, found, hnow, hwake, hP⟩ := hs
  have hlt : k < s.tasks.length := (List.getElem?_eq_some_iff.1 found).1
  cases h with
  | aside aside tasks calls later prompt =>
    have hquiet : e.told k cancelled s = [] ∧ e.cancels k cancelled = cancelled := by
      cases e <;> first | exact ⟨rfl, rfl⟩ | cases aside
    rw [hquiet.1, hquiet.2, List.append_nil]
    refine ⟨stage, now, tasks ▸ found, hnow.trans later, fun wake hw => ?_, ?_⟩
    · rcases prompt with hsame | hall
      · rw [hsame]
        exact hwake wake hw
      · exact le_max_of_le_right (hall _ (List.mem_of_getElem? found) wake hw)
    · rwa [askedBy, calls]
  | spawn aside tasks calls hsame =>
    have hquiet : e.told k cancelled s = [] ∧ e.cancels k cancelled = cancelled := by
      cases e <;> first | exact ⟨rfl, rfl⟩ | cases aside
    rw [hquiet.1, hquiet.2, List.append_nil]
    refine ⟨stage, now, ?_, hsame ▸ hnow, hsame ▸ hwake, ?_⟩
    · rw [tasks, List.getElem?_append_left hlt, found]
    · rwa [askedBy, calls, ofTask_append, ofTask_callsOf_of_ne hlt.ne', List.append_nil]
  | @cancel j r hr tasks calls hsame =>
    show Follows P s' k (cancelled || j == k) (ts ++ [])
    rw [List.append_nil]
    by_cases hjk : j = k
    · subst hjk
      obtain rfl : r = ⟨cancelled, stage⟩ := by simpa [found] using hr.symm
      refine ⟨stage, now, ?_, hsame ▸ hnow, hsame ▸ hwake, by rwa [askedBy, calls]⟩
      rw [tasks, List.getElem?_set_self hlt]
      simp
    · refine ⟨stage, now, ?_, hsame ▸ hnow, hsame ▸ hwake, by rwa [askedBy, calls]⟩
      rw [tasks, List.getElem?_set_ne hjk, found]
      simp [hjk]
  | @signal j sig t t' ht goes tasks calls hsame =>
    show Follows P s' k cancelled
      (ts ++ if j = k then [⟨s.now, s.stamp, cancelled, sig⟩] else [])
    by_cases hjk : j = k
    · subst hjk
      obtain rfl : t = .run ⟨cancelled, stage⟩ := by simpa [found] using ht.symm
      obtain ⟨r', rfl, hstep⟩ := goes _ rfl
      obtain ⟨stage', hstage, rfl⟩ := Option.map_eq_some_iff.1 hstep
      rw [if_pos rfl]
      refine ⟨stage', s.now, ?_, hsame.ge, fun wake _ => hsame ▸ le_max_left _ _, ?_⟩
      · rw [tasks, List.getElem?_set_self hlt]
      · rw [askedBy, calls, ofTask_append, ofTask_callsOf_self]
        exact tell (t := ⟨s.now, s.stamp, cancelled, sig⟩) hP hnow hwake hstage
    · rw [if_neg hjk, List.append_nil]
      refine ⟨stage, now, ?_, hsame ▸ hnow, hsame ▸ hwake, ?_⟩
      · rw [tasks, List.getElem?_set_ne hjk, found]
      · rwa [askedBy, calls, ofTask_append, ofTask_callsOf_of_ne hjk, List.append_nil]
  | @drop j more tasks calls _ hsame =>
    have hjk : j ≠ k := fun h => kept (h ▸ rfl)
    show Follows P s' k cancelled (ts ++ [])
    rw [List.append_nil]
    refine ⟨stage, now, ?_, hsame ▸ hnow, hsame ▸ hwake, ?_⟩
    · rw [tasks, List.getElem?_append_left (by rwa [List.length_set]), List.getElem?_set_ne hjk,
        found]
    · have hnone : ofTask k (more.flatMap (callsOf s.tasks.length)) = [] := by
        refine ofTask_eq_nil fun c hc => ?_
        obtain ⟨t, _, hc⟩ := List.mem_flatMap.1 hc
        rw [(mem_callsOf.1 hc).1]
        exact hlt.ne'
      rwa [askedBy, calls, ofTask_append, hnone, List.append_nil]

/-- **What every signal to a run preserves holds after any events** among which nobody drops the
run. -/
theorem run_induction
    (tell : ∀ {ts calls now t stage stage'}, P ts calls now stage → now ≤ t.now →
      (∀ wake ∈ stage.wake?, t.now ≤ max now wake) →
      stage.step t.now t.stamp t.cancelled t.signal = some stage' →
        P (ts ++ [t]) (calls ++ stage'.call?.toList) t.now stage')
    (start : Follows P b k cancelled ts) (kept : Event.drop k ∉ es)
    (after : b.after? es = some s) :
    ∃ flag, Follows P s k flag (ts ++ heard k cancelled b es) := by
  induction es generalizing b cancelled ts with
  | nil =>
    cases after
    exact ⟨cancelled, by rwa [heard, List.append_nil]⟩
  | cons e es ih =>
    rw [after?_cons] at after
    obtain ⟨s₁, hstep, hrest⟩ := Option.bind_eq_some_iff.1 after
    obtain ⟨hhead, htail⟩ := not_or.1 (mt List.mem_cons.2 kept)
    have hmoved := start.move tell (Ne.symm hhead) (moves_of_step hstep).1
    obtain ⟨flag, hflag⟩ := ih hmoved htail hrest
    refine ⟨flag, ?_⟩
    rwa [heard, hstep, ← List.append_assoc]

end Supervisor

end Isolate
