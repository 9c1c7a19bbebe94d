import Isolate.Proofs.Supervisor.Conservation
import Isolate.Proofs.Supervisor.Hearing

/-!
# The phases of a run in a supervisor

Whatever else happens in a supervisor, a run that nobody drops takes one of the courses of its job:
what it has asked the engine and the stage that it has come to follow from what it was told alone.

* `idleFor`, `follows_beginRun`: the container that a run is given, and how it begins;
* `course_of_run`: the course of a run whose language is known;
* `phases_of_run`: the course of any run, with what it waits for at each stage.
-/

namespace Isolate.Supervisor

variable {c : Config} {epoch k : ℕ} {s₀ b s : Supervisor} {pre post : List Event}
  {request : Request} {cancelled : Bool} {job : Job} {t : Task} {stage : Run.Stage}
  {P : List Told → List Call → Instant → Run.Stage → Prop}

/-- The idle container that the run of a job is given. -/
def idleFor (s : Supervisor) (job : Job) : Option ContainerId :=
  if job.takesIdle then (s.takeIdle job.request.language).1 else none

/-- What holds of the stage that a task begins with holds of the task. -/
theorem follows_spawn (indexed : s.Indexed) {s₁ : Supervisor}
    (frame : Frame s s₁) (h : P [] stage.call?.toList s.now stage) :
    Follows P (s₁.spawn (.run ⟨cancelled, stage⟩)) s.tasks.length cancelled [] := by
  obtain ⟨tasks, calls, now, -⟩ := frame
  have hnone : ofTask s.tasks.length s.calls = [] := ofTask_eq_nil fun c hc => (indexed c hc).ne
  rw [spawn_eq]
  refine ⟨stage, s.now, ?_, now.ge, fun wake _ => now.trans_le (le_max_left _ _), ?_⟩
  · rw [tasks, List.getElem?_concat_length]
  · rw [askedBy, tasks, calls, ofTask_append, hnone, ofTask_callsOf_self]
    exact h

/-- A run begins with the first stage of its job. -/
theorem follows_begin (indexed : b.Indexed) (known : b.config.job? request = some job)
    (h : P [] (Run.begin b.now b.stamp job (b.idleFor job)).call?.toList b.now
      (Run.begin b.now b.stamp job (b.idleFor job))) :
    Follows P (b.beginRun request cancelled) b.tasks.length cancelled [] := by
  have hrequest : job.request = request := by
    obtain ⟨q, _, rfl⟩ := Option.map_eq_some_iff.1 known
    rfl
  unfold idleFor at h
  unfold beginRun
  rw [known]
  rw [hrequest] at h
  by_cases ht : job.takesIdle = true
  · have frame := Frame.takeIdle b request.language
    simp only [ht, if_true, stamp, frame.now, frame.keeps.epoch] at h ⊢
    exact follows_spawn indexed frame h
  · simp only [ht] at h ⊢
    exact follows_spawn indexed (Frame.refl b) h

/-- A run begins on the course of its job. -/
theorem follows_beginRun (indexed : b.Indexed) (known : b.config.job? request = some job) :
    Follows (Run.Course job b.now b.stamp (b.idleFor job)) (b.beginRun request cancelled)
      b.tasks.length cancelled [] :=
  follows_begin indexed known (Run.Course.begin job b.now _ _)

/-- A run of a language that is not known is done at once. -/
theorem follows_unsupported (indexed : b.Indexed) (unknown : b.config.job? request = none) :
    Follows (fun ts asked _ stage => ts = [] ∧ asked = [] ∧
        stage = .done (.error (.unsupported request.language)))
      (b.beginRun request cancelled) b.tasks.length cancelled [] := by
  unfold beginRun
  rw [unknown]
  exact follows_spawn indexed (Frame.refl b) ⟨rfl, rfl, rfl⟩

/-- A property of a run at its beginning that every signal preserves holds of it as long as nobody
drops it. -/
theorem follows_run (start : start? c epoch = some s₀) (before : s₀.after? pre = some b)
    (after : s₀.after? (pre ++ .run request cancelled :: post) = some s)
    (kept : Event.drop b.tasks.length ∉ post)
    (tell : ∀ {ts asked now t stage stage'}, P ts asked now stage → now ≤ t.now →
      (∀ wake ∈ stage.wake?, t.now ≤ max now wake) →
      stage.step t.now t.stamp t.cancelled t.signal = some stage' →
        P (ts ++ [t]) (asked ++ stage'.call?.toList) t.now stage')
    (begins : b.Indexed → b.config = c →
      Follows P (b.beginRun request cancelled) b.tasks.length cancelled []) :
    ∃ flag, Follows P s b.tasks.length flag
      (heard b.tasks.length cancelled (b.beginRun request cancelled) post) := by
  obtain ⟨indexed, config⟩ := indexed_after start before
  rw [after?_append, before, Option.bind_some, after?_cons] at after
  exact run_induction tell (begins indexed config) kept after

/-- **A run of a known language takes a course of its job.** -/
theorem course_of_run (start : start? c epoch = some s₀) (before : s₀.after? pre = some b)
    (after : s₀.after? (pre ++ .run request cancelled :: post) = some s)
    (kept : Event.drop b.tasks.length ∉ post) (known : c.job? request = some job) :
    ∃ flag, Follows (Run.Course job b.now b.stamp (b.idleFor job)) s b.tasks.length flag
      (heard b.tasks.length cancelled (b.beginRun request cancelled) post) :=
  follows_run start before after kept Run.Course.step
    fun indexed config => follows_beginRun indexed (config ▸ known)

/-- **The phases of a run.** Let a run begin at any moment of any supervisor, and let anything
happen afterwards but that the run is dropped. If the language of the request is not known, the run
is done without having asked anything. Otherwise the calls that it has made and the stage that it
has come to are those of the course of its job with what it was told, and at every stage it goes on
with everything that it waits for there. -/
theorem phases_of_run (start : start? c epoch = some s₀) (before : s₀.after? pre = some b)
    (after : s₀.after? (pre ++ .run request cancelled :: post) = some s)
    (kept : Event.drop b.tasks.length ∉ post) :
    ∃ flag stage, s.tasks[b.tasks.length]? = some (.run ⟨flag, stage⟩) ∧
      (c.job? request = none → s.askedBy b.tasks.length = [] ∧
        stage = .done (.error (.unsupported request.language))) ∧
      (∀ job, c.job? request = some job → ∃ now, Run.Course job b.now b.stamp (b.idleFor job)
        (heard b.tasks.length cancelled (b.beginRun request cancelled) post)
        (s.askedBy b.tasks.length) now stage) ∧
      ∀ moment stamp sig, stage.Awaits moment flag sig →
        ∃ stage', stage.step moment stamp flag sig = some stage' := by
  cases hjob : c.job? request with
  | none =>
    obtain ⟨flag, stage, _, found, _, _, _, hasked, hstage⟩ := follows_run start before after kept
      (fun h _ _ hstep => by
        obtain ⟨_, _, rfl⟩ := h
        rw [Run.step_done] at hstep
        cases hstep)
      (fun indexed config => follows_unsupported indexed (config ▸ hjob))
    exact ⟨flag, stage, found, fun _ => ⟨hasked, hstage⟩, by rintro job ⟨⟩,
      fun _ _ _ h => Run.Stage.exists_step h⟩
  | some job =>
    obtain ⟨flag, stage, now, found, _, _, course⟩ := course_of_run start before after kept hjob
    refine ⟨flag, stage, found, by rintro ⟨⟩, ?_, fun _ _ _ h => Run.Stage.exists_step h⟩
    rintro _ ⟨⟩
    exact ⟨now, course⟩

theorem phases_of_run_oneLife : ∃ s₀ b s job flag stage now, start? .small 0 = some s₀ ∧
    s₀.after? (oneLife.take 7) = some b ∧ s₀.after? oneLife = some s ∧
    Config.small.job? (.ofCode "sh" "true") = some job ∧ b.idleFor job = some ⟨"a"⟩ ∧
    s.tasks[b.tasks.length]? = some (.run ⟨flag, stage⟩) ∧
    Run.Course job b.now b.stamp (b.idleFor job)
      (heard b.tasks.length false (b.beginRun (.ofCode "sh" "true") false) (oneLife.drop 8))
      (s.askedBy b.tasks.length) now stage := by
  have hs : ∃ s₀ b s job, start? .small 0 = some s₀ ∧ s₀.after? (oneLife.take 7) = some b ∧
      s₀.after? oneLife = some s ∧ Config.small.job? (.ofCode "sh" "true") = some job ∧
      b.idleFor job = some ⟨"a"⟩ :=
    ⟨_, _, _, _, rfl, rfl, rfl, rfl, rfl⟩
  obtain ⟨s₀, b, s, job, start, before, after, known, idle⟩ := hs
  have kept : Event.drop b.tasks.length ∉ oneLife.drop 8 := by simp [oneLife]
  obtain ⟨flag, stage, found, _, course, _⟩ := phases_of_run start before after kept
  obtain ⟨now, hcourse⟩ := course job known
  exact ⟨s₀, b, s, job, flag, stage, now, start, before, after, known, idle, found, hcourse⟩

end Isolate.Supervisor
