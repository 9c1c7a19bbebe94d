import Isolate.Proofs.Run.Race
import Isolate.Rehearsal.Play

/-!
# Timelines at play

A timeline says what comes first of all that can happen, and so does a play, each in its own way: a
timeline compares the moments of three signals, a play lets time go on only when nothing can happen
any more and then takes everything that is due in a fixed order. A supervisor is run by playing it,
and the outcome of a race is known for timelines. Here the two are brought together. Where a run is
the only task, it executes a command and the answers are those of a timeline, the play goes the way
of the timeline until the race is over, so what is known of races holds of plays.

* `Play.ComesTo`: one event or one wait after the other;
* `Timeline.responder`: the answers of a timeline;
* `Reaches`: a play and a state of its timeline, kept by every step;
* `comesTo_run`, `comesTo_result`: a play comes to every state of a timeline, and to its result;
* `comesTo_decided`: so it comes to the outcome of the race.
-/

namespace Isolate

namespace Play

variable {σ τ : Type} {r : Responder σ τ}

/-- A play comes to another: what can happen happens, and if nothing can then time goes on. -/
inductive ComesTo (r : Responder σ τ) : Play σ τ → Play σ τ → Prop where
  | refl (p : Play σ τ) : ComesTo r p p
  | next {p p' q : Play σ τ} : p.next r = some p' → ComesTo r p' q → ComesTo r p q
  | skip {p q : Play σ τ} {moment : Instant} : p.next r = none → p.nextMoment? = some moment →
      ComesTo r (p.skip r moment) q → ComesTo r p q

theorem ComesTo.trans {p q q' : Play σ τ} (h : ComesTo r p q) (h' : ComesTo r q q') :
    ComesTo r p q' := by
  induction h with
  | refl p => exact h'
  | next hn _ ih => exact .next hn (ih h')
  | skip hn hm _ ih => exact .skip hn hm (ih h')

/-- A play in which a single run executes a command. -/
def single (S : Supervisor) (engine : σ) (now : Instant) (cancelled : Bool) (x : Execution)
    (awaited : List (Awaited τ)) (alarms : List (Instant × ℕ)) : Play σ τ where
  supervisor := { S with now, tasks := [.run ⟨cancelled, .executing x⟩] }
  engine := engine
  awaited := awaited
  alarms := alarms
  released := false

variable {S : Supervisor} {engine : σ} {now moment : Instant} {cancelled : Bool} {x : Execution}
  {awaited : List (Awaited τ)} {alarms : List (Instant × ℕ)} {sig : Signal}

theorem happen_of_step_none (h : x.step now cancelled sig = none) :
    (single S engine now cancelled x awaited alarms).happen r (.signal 0 sig) = none := by
  simp [happen, single, Supervisor.step, Supervisor.stepTask, Run.step, Run.Stage.step, h]

/-- A step that asks the engine for nothing. -/
theorem happen_of_going {x' : Execution} (h : x.step now cancelled sig = some (.going x'))
    (hcall : x'.call? = none) (hawaited : ∀ a ∈ awaited, a.task = 0) :
    (single S engine now cancelled x awaited alarms).happen r (.signal 0 sig) =
      some (single S engine now cancelled x' [] alarms) := by
  have hforget : forget awaited 0 = [] := by
    simpa [forget] using hawaited
  simp [happen, single, Supervisor.step, Supervisor.stepTask, Run.step, Run.Stage.step, h,
    Run.afterExecution, Supervisor.goOn, Supervisor.record, Task.call?, Run.Stage.call?, hcall,
    hforget, issue]

/-- New calls are nothing to the supervisor. -/
@[simp] theorem supervisor_issue (p : Play σ τ) (calls : List (ℕ × Call)) :
    (issue r p calls).supervisor = p.supervisor := by
  induction calls generalizing p with
  | nil => rfl
  | cons call calls ih => exact ih _

/-- The run after any step. -/
theorem happen_of_step {q : Progress Execution Execution.Result}
    (h : x.step now cancelled sig = some q) :
    ∃ p', (single S engine now cancelled x awaited alarms).happen r (.signal 0 sig) = some p' ∧
      p'.supervisor.now = now ∧
      p'.supervisor.tasks = [.run ⟨cancelled, Run.afterExecution now x.container q⟩] := by
  refine ⟨_, by simp only [happen, single, Supervisor.step, List.getElem?_cons_zero,
    Supervisor.stepTask, Run.step, Run.Stage.step, h, Option.map_some]; rfl, ?_, ?_⟩
  · simp only [supervisor_issue, Supervisor.goOn, Supervisor.record]
    split <;> rfl
  · simp only [supervisor_issue, Supervisor.goOn, Supervisor.record]
    split <;> rfl

/-! ### What happens first -/

theorem step_proceed (now : Instant) (cancelled : Bool) (x : Execution) :
    x.step now cancelled .proceed = none := by
  unfold Execution.step
  split <;> simp_all

theorem step_notice (now : Instant) (x : Execution) : x.step now false .notice = none := by
  unfold Execution.step
  split <;> simp_all

/-- Before it is cancelled, a run sees answers before the end of its patience. -/
theorem next_single :
    (single S engine now false x awaited alarms).next r =
      ((single S engine now false x awaited alarms).cancelNext r).or
        (((single S engine now false x awaited alarms).deliverNext r).or
          ((single S engine now false x awaited alarms).happen r (.signal 0 .timer))) := by
  have hproceed : (single S engine now false x awaited alarms).proceedNext r = none := by
    have hlength : (single S engine now false x awaited alarms).supervisor.tasks.length = 1 := rfl
    simp [proceedNext, hlength, List.range_succ, happen_of_step_none (step_notice now x),
      happen_of_step_none (step_proceed now false x)]
  have hwake : (single S engine now false x awaited alarms).wakeNext r =
      (single S engine now false x awaited alarms).happen r (.signal 0 .timer) := by
    have hlength : (single S engine now false x awaited alarms).supervisor.tasks.length = 1 := rfl
    simp [wakeNext, hlength, List.range_succ]
  have habandon : (single S engine now false x awaited alarms).abandonNext r = none := by
    simp [abandonNext, single]
  rw [next, hproceed, hwake, habandon, Option.none_or, Option.or_none]

/-- A run that has been cancelled sees that first. -/
theorem next_cancelled {q : Progress Execution Execution.Result}
    (h : x.step now true .notice = some q) :
    ∃ p', (single S engine now true x awaited []).next r = some p' ∧ p'.supervisor.now = now ∧
      p'.supervisor.tasks = [.run ⟨true, Run.afterExecution now x.container q⟩] := by
  have hhappen : ∃ p', (single S engine now true x awaited []).happen r (.signal 0 .notice) =
      some p' ∧ p'.supervisor.now = now ∧
        p'.supervisor.tasks = [.run ⟨true, Run.afterExecution now x.container q⟩] :=
    happen_of_step h
  obtain ⟨p', hp', hnow, htasks⟩ := hhappen
  refine ⟨p', ?_, hnow, htasks⟩
  have hlength : (single S engine now true x awaited []).supervisor.tasks.length = 1 := rfl
  have hcancel : (single S engine now true x awaited []).cancelNext r = none := rfl
  have hproceed : (single S engine now true x awaited []).proceedNext r = some p' := by
    simp [proceedNext, hlength, List.range_succ, hp']
  rw [next, hcancel, hproceed, Option.none_or, Option.some_or]

/-- A cancellation that is due comes first. -/
theorem next_alarm {c : Instant} (hc : c ≤ now) :
    (single S engine now false x awaited [(c, 0)]).next r =
      some (single S engine now true x awaited []) := by
  have hcancel : (single S engine now false x awaited [(c, 0)]).cancelNext r =
      some (single S engine now true x awaited []) := by
    simp [cancelNext, single, hc, attempt, happen, Supervisor.step, issue]
  rw [next_single, hcancel, Option.some_or]

theorem cancelNext_eq_none (h : ∀ a ∈ alarms, now < a.1) :
    (single S engine now false x awaited alarms).cancelNext r = none := by
  unfold cancelNext
  split
  · rename_i alarm hfind
    have hlt : now < alarm.1 := h alarm (List.mem_of_find?_eq_some hfind)
    have hdue := List.find?_some hfind
    exact absurd (of_decide_eq_true hdue) (Nat.not_le.2 hlt)
  · rfl

theorem deliverNext_eq_none (h : ∀ a ∈ awaited, now < a.due) :
    (single S engine now false x awaited alarms).deliverNext r = none :=
  Option.map_eq_none_iff.2 (List.find?_eq_none.2 fun a ha hdue =>
    absurd (of_decide_eq_true hdue) (Nat.not_le.2 (h a ha)))

theorem step_timer (h : ∀ wake, x.wake? = some wake → now < wake) :
    x.step now false .timer = none := by
  obtain ⟨container, argv, cap, started, deadline, point⟩ := x
  cases point with
  | opening => rfl
  | collecting exec stdout stderr =>
    cases deadline with
    | none => rfl
    | some deadline => exact if_neg (by simpa using h deadline rfl)
  | inspecting ending n => rfl
  | pausing ending n wake => exact if_neg (Nat.not_le.2 (h wake rfl))

/-! ### Waiting -/

/-- What a run waits for, what is on its way and when it will be cancelled. -/
def moments (x : Execution) (awaited : List (Awaited τ)) (alarms : List (Instant × ℕ)) :
    List Instant :=
  x.wake?.toList ++ awaited.map (·.due) ++ alarms.map (·.1)

theorem next_eq_none (h : ∀ m ∈ moments x awaited alarms, now < m) :
    (single S engine now false x awaited alarms).next r = none := by
  have hwake : ∀ wake, x.wake? = some wake → now < wake := fun wake hw =>
    h wake (by simp [moments, hw])
  have hawaited : ∀ a ∈ awaited, now < a.due := fun a ha =>
    h a.due (List.mem_append_left _ (List.mem_append_right _ (List.mem_map_of_mem ha)))
  have halarms : ∀ a ∈ alarms, now < a.1 := fun a ha =>
    h a.1 (List.mem_append_right _ (List.mem_map_of_mem ha))
  rw [next_single, cancelNext_eq_none halarms, deliverNext_eq_none hawaited,
    happen_of_step_none (step_timer hwake)]
  rfl

theorem nextMoment?_single {m : Instant} (hm : m ∈ moments x awaited alarms)
    (hle : ∀ m' ∈ moments x awaited alarms, m ≤ m') :
    (single S engine now false x awaited alarms).nextMoment? = some m := by
  have hmoments : (single S engine now false x awaited alarms).nextMoment? =
      (moments x awaited alarms).min? := by
    cases hw : x.wake? <;>
      simp [nextMoment?, single, moments, Task.wake?, Run.Stage.wake?, hw]
  rw [hmoments]
  exact List.min?_eq_some_iff.2 ⟨hm, hle⟩

/-- Time goes on to the first of the moments, unless it has come. -/
theorem comesTo_moment {t m : Instant} (hm : m ∈ moments x awaited alarms) (ht : t = max now m)
    (hle : ∀ m' ∈ moments x awaited alarms, t ≤ max now m') :
    ComesTo r (single S engine now false x awaited alarms)
      (single S engine t false x awaited alarms) := by
  -- what is due already is not waited for
  by_cases hnow : m ≤ now
  · rw [ht, max_eq_left hnow]
    exact .refl _
  · have hlt : now < m := Nat.not_le.1 hnow
    rw [max_eq_right hlt.le] at ht
    subst ht
    have hfirst : ∀ m' ∈ moments x awaited alarms, t ≤ m' := by
      intro m' hm'
      rcases le_max_iff.1 (hle m' hm') with h | h
      · exact absurd h hnow
      · exact h
    have hskip : (single S engine now false x awaited alarms).skip r t =
        single S engine t false x awaited alarms := by
      have hwake : ∀ wake, x.wake? = some wake → t ≤ wake := fun wake hw =>
        hfirst wake (by simp [moments, hw])
      have hall : x.wake?.all (t ≤ ·) = true := by
        cases hw : x.wake? with
        | none => rfl
        | some wake => exact decide_eq_true (hwake wake hw)
      simp only [skip, attempt, happen, Supervisor.step, single, max_eq_right hlt.le]
      rw [if_pos ⟨hlt.le, by simpa [Task.wake?, Run.Stage.wake?] using hall⟩]
      simp [issue]
    refine .skip (next_eq_none fun m' hm' => hlt.trans_le (hfirst m' hm'))
      (nextMoment?_single hm hfirst) ?_
    rw [hskip]
    exact .refl _

/-! ### Answers -/

/-- What an answer on its way says, the output that comes after it and who answers next. -/
def heard (r : Responder σ τ) (now : Instant) (engine : σ) (a : Awaited τ) :
    Reply × List (ℕ × Reply) × σ :=
  match a.source with
  | .call call ticket => r.finish now call ticket engine
  | .stream reply rest => (reply, rest, engine)

/-- The next piece of output, if there is one. -/
def coming (now : Instant) : List (ℕ × Reply) → List (Awaited τ)
  | [] => []
  | (delay, reply) :: rest => [⟨0, now + delay, .stream reply rest⟩]

variable {a : Awaited τ} {reply : Reply} {output : List (ℕ × Reply)} {engine' : σ}

/-- An answer that is due comes first, unless the run is to be cancelled. -/
theorem next_answer (halarms : ∀ c ∈ alarms, now < c.1) (hdue : a.due ≤ now) (htask : a.task = 0)
    (hheard : heard r now engine a = (reply, output, engine')) :
    (single S engine now false x [a] alarms).next r =
      some ((attempt r (single S engine' now false x [] alarms)
        (.signal 0 (.reply reply))).schedule 0 output) := by
  have hfind : List.find? (fun b : Awaited τ => b.due ≤ now) [a] = some a :=
    List.find?_cons_of_pos (decide_eq_true hdue)
  have hforget : forget [a] 0 = [] := by simp [forget, htask]
  have hdeliver : (single S engine now false x [a] alarms).deliver r a =
      (attempt r (single S engine' now false x [] alarms)
        (.signal 0 (.reply reply))).schedule 0 output := by
    unfold heard at hheard
    split at hheard
    · rename_i call ticket hsource
      simp [deliver, hsource, single, htask, hforget, hheard]
    · rename_i next rest hsource
      cases hheard
      simp [deliver, hsource, single, htask, hforget]
  have hnext : (single S engine now false x [a] alarms).deliverNext r =
      some ((single S engine now false x [a] alarms).deliver r a) := congrArg (Option.map _) hfind
  rw [next_single, cancelNext_eq_none halarms, hnext, hdeliver]
  rfl

theorem next_answer_going {x' : Execution} (halarms : ∀ c ∈ alarms, now < c.1) (hdue : a.due ≤ now)
    (htask : a.task = 0) (hheard : heard r now engine a = (reply, output, engine'))
    (h : x.step now false (.reply reply) = some (.going x')) (hcall : x'.call? = none) :
    (single S engine now false x [a] alarms).next r =
      some (single S engine' now false x' (coming now output) alarms) := by
  rw [next_answer halarms hdue htask hheard, attempt, happen_of_going h hcall (by simp),
    Option.getD_some]
  cases output with
  | nil => rfl
  | cons piece rest => rfl

theorem next_answer_any {q : Progress Execution Execution.Result}
    (halarms : ∀ c ∈ alarms, now < c.1) (hdue : a.due ≤ now) (htask : a.task = 0)
    (hheard : heard r now engine a = (reply, output, engine'))
    (h : x.step now false (.reply reply) = some q) :
    ∃ p', (single S engine now false x [a] alarms).next r = some p' ∧ p'.supervisor.now = now ∧
      p'.supervisor.tasks = [.run ⟨false, Run.afterExecution now x.container q⟩] := by
  obtain ⟨p', hp', hnow, htasks⟩ : ∃ p', (single S engine' now false x [] alarms).happen r
      (.signal 0 (.reply reply)) = some p' ∧ p'.supervisor.now = now ∧
        p'.supervisor.tasks = [.run ⟨false, Run.afterExecution now x.container q⟩] :=
    happen_of_step h
  refine ⟨_, next_answer halarms hdue htask hheard, ?_⟩
  rw [attempt, hp', Option.getD_some]
  cases output with
  | nil => exact ⟨hnow, htasks⟩
  | cons piece rest => exact ⟨hnow, htasks⟩

/-- The end of a wait comes when nothing else is due. -/
theorem next_timer {q : Progress Execution Execution.Result} (halarms : ∀ c ∈ alarms, now < c.1)
    (hawaited : ∀ b ∈ awaited, now < b.due) (h : x.step now false .timer = some q) :
    ∃ p', (single S engine now false x awaited alarms).next r = some p' ∧ p'.supervisor.now = now ∧
      p'.supervisor.tasks = [.run ⟨false, Run.afterExecution now x.container q⟩] := by
  obtain ⟨p', hp', hnow, htasks⟩ : ∃ p', (single S engine now false x awaited alarms).happen r
      (.signal 0 .timer) = some p' ∧ p'.supervisor.now = now ∧
        p'.supervisor.tasks = [.run ⟨false, Run.afterExecution now x.container q⟩] :=
    happen_of_step h
  refine ⟨p', ?_, hnow, htasks⟩
  rw [next_single, cancelNext_eq_none halarms, deliverNext_eq_none hawaited, hp']
  rfl

end Play

namespace Timeline

open Play (Awaited ComesTo single coming heard)

/-- The time that passes before each of some answers. -/
def delays : Instant → List (Instant × Reply) → List (ℕ × Reply)
  | _, [] => []
  | now, (t, reply) :: rest => (t - now, reply) :: delays t rest

/-- Someone who answers as a timeline says. Only the command is asked for before the race is over.
-/
def responder (T : Timeline) : Responder Unit Unit where
  begin now _ _ := (T.opened - now, (), ())
  finish _ _ _ _ := (.opened T.session, delays T.opened (T.frames.map frame ++ T.ends), ())

/-- The next of some answers as a piece of output. -/
def streamed : List (Instant × Reply) → List (Awaited Unit)
  | [] => []
  | (t, reply) :: rest => [⟨0, t, .stream reply (delays t rest)⟩]

/-- What is on its way to an execution. -/
def onItsWay (T : Timeline) (x : Execution) (answers : List (Instant × Reply)) :
    List (Awaited Unit) :=
  match x.point with
  | .opening => [⟨0, T.opened, .call T.command ()⟩]
  | _ => streamed answers

/-- When the play cancels its run. -/
def alarms (T : Timeline) : List (Instant × ℕ) := T.cancel.toList.map fun c => (c, 0)

/-- A play in which a run executes the command of a timeline. -/
def play (T : Timeline) (S : Supervisor) (now : Instant) (x : Execution)
    (answers : List (Instant × Reply)) : Play Unit Unit :=
  single S () now false x (T.onItsWay x answers) T.alarms

/-- Executions whose command is being opened or whose output is gathered, with what has not been
answered. -/
inductive Racing (T : Timeline) : Instant → Execution → List (Instant × Reply) → Prop where
  | opening : Racing T T.start (T.execution .opening) T.answers
  | collecting {now : Instant} {exec : ExecId} {stdout stderr : Capture}
      {fs : List (Instant × Chunk)}
      (ordered : (now :: (fs.map Prod.fst ++ (T.ending.map Prod.fst).toList)).Pairwise (· ≤ ·)) :
      Racing T now (T.execution (.collecting exec stdout stderr)) (fs.map frame ++ T.ends)

variable {T : Timeline} {S : Supervisor} {now t : Instant} {x : Execution} {sig : Signal}
  {answers : List (Instant × Reply)}

theorem coming_delays (h : ∀ a, answers.head? = some a → now ≤ a.1) :
    coming now (delays now answers) = streamed answers := by
  cases answers with
  | nil => rfl
  | cons a rest =>
    have hle : now ≤ a.1 := h a rfl
    simp [coming, delays, streamed, Nat.add_sub_cancel' hle]

theorem due_onItsWay (h : T.Racing now x answers) :
    (T.onItsWay x answers).map (·.due) = answers.head?.toList.map Prod.fst := by
  cases h with
  | opening => rfl
  | @collecting _ exec stdout stderr fs _ =>
    cases fs with
    | nil => cases T.ends <;> simp [onItsWay, execution, streamed]
    | cons f fs => rfl

/-- What is waited for in the play is what is on its way in the timeline. -/
theorem mem_moments (h : T.Racing now x answers) {m : Instant} :
    m ∈ Play.moments x (T.onItsWay x answers) T.alarms ↔
      x.wake? = some m ∨ (∃ a, answers.head? = some a ∧ a.1 = m) ∨ T.cancel = some m := by
  rw [Play.moments, due_onItsWay h]
  simp [alarms]

/-- While it is racing, an execution listens to the sign to stop and to answers. -/
theorem Racing.listens (h : T.Racing now x answers) :
    x.container = T.container ∧ x.step t true .notice = some (.finished (.error .cancelled)) ∧
      T.notice? now x = T.cancel.map (fun c => (max now c, .notice)) ∧
      reply? now x answers = answers.head?.map fun a => (max now a.1, .reply a.2) := by
  cases h with
  | opening => exact ⟨rfl, rfl, rfl, rfl⟩
  | collecting ordered => exact ⟨rfl, rfl, rfl, rfl⟩

/-- What comes first, and that it comes first. -/
theorem Racing.next (h : T.Racing now x answers) (hn : T.next now x answers = some (t, sig)) :
    (∃ c, T.cancel = some c ∧ t = max now c ∧ sig = .notice ∧
      (∀ a, answers.head? = some a → t ≤ max now a.1) ∧
      ∀ wake, x.wake? = some wake → t ≤ max now wake) ∨
    (∃ a, answers.head? = some a ∧ t = max now a.1 ∧ sig = .reply a.2 ∧
      (∀ c, T.cancel = some c → t < max now c) ∧ ∀ wake, x.wake? = some wake → t ≤ max now wake) ∨
    (∃ wake, x.wake? = some wake ∧ t = max now wake ∧ sig = .timer ∧
      (∀ c, T.cancel = some c → t < max now c) ∧
      ∀ a, answers.head? = some a → t < max now a.1) := by
  obtain ⟨_, _, hnotice, hreply⟩ := h.listens (t := t)
  rw [Timeline.next, first, hnotice, hreply, timer?] at hn
  generalize T.cancel = cancel at hn ⊢
  generalize answers.head? = head at hn ⊢
  generalize x.wake? = wake at hn ⊢
  -- each of the three may be on its way or not, and the order of the moments decides
  rcases cancel with _ | c <;> rcases head with _ | a <;> rcases wake with _ | wake <;>
    simp only [Option.map_none, Option.map_some, earlier] at hn <;> grind

theorem alarms_lt (h : ∀ c, T.cancel = some c → t < c) : ∀ a ∈ T.alarms, t < a.1 := by
  intro a ha
  obtain ⟨c, hc, rfl⟩ := List.mem_map.1 ha
  exact h c (Option.mem_toList.1 hc)

/-- Time goes on to the moment of the signal that comes first. -/
theorem comesTo_next (h : T.Racing now x answers) (hn : T.next now x answers = some (t, sig)) :
    ComesTo T.responder (T.play S now x answers)
      (single S () t false x (T.onItsWay x answers) T.alarms) := by
  have hmoments : (∃ m ∈ Play.moments x (T.onItsWay x answers) T.alarms, t = max now m) ∧
      ∀ m ∈ Play.moments x (T.onItsWay x answers) T.alarms, t ≤ max now m := by
    simp only [mem_moments h]
    rcases h.next hn with ⟨c, hc, rfl, _, ha, hw⟩ | ⟨a, ha, rfl, _, hc, hw⟩ |
      ⟨wake, hw, rfl, _, hc, ha⟩
    · refine ⟨⟨c, Or.inr (Or.inr hc), rfl⟩, ?_⟩
      rintro m (hm | ⟨a, hm, rfl⟩ | hm)
      · exact hw m hm
      · exact ha a hm
      · cases hc.symm.trans hm
        exact le_rfl
    · refine ⟨⟨a.1, Or.inr (Or.inl ⟨a, ha, rfl⟩), rfl⟩, ?_⟩
      rintro m (hm | ⟨b, hm, rfl⟩ | hm)
      · exact hw m hm
      · cases ha.symm.trans hm
        exact le_rfl
      · exact (hc m hm).le
    · refine ⟨⟨wake, Or.inl hw, rfl⟩, ?_⟩
      rintro m (hm | ⟨b, hm, rfl⟩ | hm)
      · cases hw.symm.trans hm
        exact le_rfl
      · exact (ha b hm).le
      · exact (hc m hm).le
  obtain ⟨⟨m, hm, ht⟩, hle⟩ := hmoments
  exact Play.comesTo_moment hm ht hle

/-- The race is not over. -/
def Races : Progress Execution Execution.Result → Prop
  | .going x => x.point = .opening ∨ ∃ exec stdout stderr, x.point = .collecting exec stdout stderr
  | .finished _ => False

theorem Racing.le_head (h : T.Racing now x answers) :
    ∀ a, answers.head? = some a → now ≤ a.1 := by
  cases h with
  | opening =>
    rintro a ⟨⟩
    exact T.start_le_opened
  | @collecting _ exec stdout stderr fs ordered =>
    intro a ha
    obtain ⟨hle, _⟩ := List.pairwise_cons.1 ordered
    cases fs with
    | cons f fs =>
      cases ha
      exact hle f.1 (by simp)
    | nil =>
      obtain ⟨how, hend⟩ := ends_head ha
      exact hle a.1 (by simp [hend])

/-- An answer either leaves an execution in the race or ends it. -/
theorem Racing.reply {a : Instant × Reply} {q : Progress Execution Execution.Result}
    (h : T.Racing now x answers) (ha : answers.head? = some a)
    (hs : x.step a.1 false (.reply a.2) = some q) :
    (∃ x', q = .going x' ∧ T.Racing a.1 x' answers.tail ∧
        T.onItsWay x' answers.tail = streamed answers.tail ∧ x'.call? = none) ∨ ¬ Races q := by
  cases h with
  | opening =>
    cases ha
    rcases Execution.step_opening rfl hs with ⟨hc, _⟩ | ⟨_, exec, hsig, rfl⟩ | ⟨_, e, hsig, rfl⟩
    · cases hc
    · exact Or.inl ⟨_, rfl, .collecting (List.pairwise_cons.1 T.ordered).2, rfl, rfl⟩
    · exact Or.inr id
  | @collecting _ exec stdout stderr fs ordered =>
    cases fs with
    | cons f fs =>
      cases ha
      cases hs
      exact Or.inl ⟨_, rfl, .collecting (List.pairwise_cons.1 ordered).2, rfl, rfl⟩
    | nil =>
      have hhead : T.ends.head? = some a := ha
      unfold ends at hhead
      split at hhead
      · cases hhead
        cases hs
        exact Or.inr (by simp [Races])
      · cases hhead
        cases hs
        exact Or.inr id
      · cases hhead

/-- What is on its way is the next answer, with the others to follow. -/
theorem Racing.heard {a : Instant × Reply} (h : T.Racing now x answers)
    (ha : answers.head? = some a) :
    ∃ b, T.onItsWay x answers = [b] ∧ b.due = a.1 ∧ b.task = 0 ∧
      heard T.responder a.1 () b = (a.2, delays a.1 answers.tail, ()) := by
  cases h with
  | opening =>
    cases ha
    exact ⟨_, rfl, rfl, rfl, rfl⟩
  | @collecting _ exec stdout stderr fs ordered =>
    obtain ⟨t, reply⟩ := a
    obtain ⟨rest, hrest⟩ : ∃ rest, fs.map frame ++ T.ends = (t, reply) :: rest :=
      List.head?_eq_some_iff.1 ha
    refine ⟨⟨0, t, .stream reply (delays t rest)⟩, ?_, rfl, rfl, ?_⟩
    · simp [onItsWay, execution, hrest, streamed]
    · simp [Play.heard, hrest]

/-- A play shows a state of a timeline: its run is at the same moment where the execution is. -/
def Shows (T : Timeline) (s : State) (p : Play Unit Unit) : Prop :=
  p.supervisor.now = s.now ∧ p.supervisor.tasks =
    [.run ⟨T.cancelledAt s.now, Run.afterExecution s.now T.container s.progress⟩]

/-- A play comes to a state of its timeline. While the race goes on, it is known to the last
detail. -/
def Reaches (T : Timeline) (S : Supervisor) (p : Play Unit Unit) (s : State) : Prop :=
  (∃ x, s.progress = .going x ∧ T.Racing s.now x s.answers ∧ (∀ c, T.cancel = some c → s.now < c) ∧
      ComesTo T.responder p (T.play S s.now x s.answers)) ∨
    ¬ Races s.progress ∧ ∃ p', ComesTo T.responder p p' ∧ T.Shows s p'

theorem cancelledAt_of_lt (h : ∀ c, T.cancel = some c → t < c) : T.cancelledAt t = false :=
  cancelledAt_eq_false (Instant.coe_lt_orNever.2 h)

theorem reaches_notice {c : Instant} {calls : List Call}
    {q : Progress Execution Execution.Result}
    (h : T.Racing now x answers) (hc : T.cancel = some c)
    (hn : T.next now x answers = some (max now c, .notice))
    (hs : x.step (max now c) (T.cancelledAt (max now c)) .notice = some q) :
    T.Reaches S (T.play S now x answers) ⟨max now c, q, answers, calls⟩ := by
  obtain ⟨hcontainer, hstep, _, _⟩ := h.listens (t := max now c)
  have hcancelled : T.cancelledAt (max now c) = true := by simp [cancelledAt, hc]
  rw [hcancelled, hstep] at hs
  cases hs
  obtain ⟨p', hnext, hnow, htasks⟩ : ∃ p', (single S () (max now c) true x
      (T.onItsWay x answers) []).next T.responder = some p' ∧ p'.supervisor.now = max now c ∧
        p'.supervisor.tasks = [.run ⟨true, Run.afterExecution (max now c) x.container
          (.finished (.error .cancelled))⟩] := Play.next_cancelled hstep
  have halarms : T.alarms = [(c, 0)] := by simp [alarms, hc]
  have hmoment := comesTo_next (S := S) h hn
  rw [halarms] at hmoment
  -- the caller cancels, and the run sees it
  refine Or.inr ⟨id, p', hmoment.trans ?_, hnow, by rw [htasks, hcontainer, hcancelled]⟩
  exact .next (Play.next_alarm (le_max_right now c)) (.next hnext (.refl p'))

theorem reaches_reply {a : Instant × Reply} {calls : List Call}
    {q : Progress Execution Execution.Result}
    (h : T.Racing now x answers) (ha : answers.head? = some a)
    (hlt : ∀ c, T.cancel = some c → a.1 < c)
    (hn : T.next now x answers = some (a.1, .reply a.2))
    (hs : x.step a.1 (T.cancelledAt a.1) (.reply a.2) = some q) :
    T.Reaches S (T.play S now x answers) ⟨a.1, q, answers.tail, calls⟩ := by
  have hmoment := comesTo_next (S := S) h hn
  obtain ⟨b, hway, hdue, htask, hheard⟩ := h.heard ha
  rw [hway] at hmoment
  rw [cancelledAt_of_lt hlt] at hs
  by_cases hgoing : Races q
  · obtain ⟨x', rfl, hracing, hway', hcall⟩ := (h.reply ha hs).resolve_right (not_not_intro hgoing)
    refine Or.inl ⟨x', rfl, hracing, hlt, hmoment.trans (.next (Play.next_answer_going
      (alarms_lt hlt) hdue.le htask hheard hs hcall) ?_)⟩
    rw [coming_delays hracing.le_head, play, hway']
    exact .refl _
  · obtain ⟨p', hnext, hnow, htasks⟩ : ∃ p', (single S () a.1 false x [b] T.alarms).next
        T.responder = some p' ∧ p'.supervisor.now = a.1 ∧
          p'.supervisor.tasks = [.run ⟨false, Run.afterExecution a.1 x.container q⟩] :=
      Play.next_answer_any (alarms_lt hlt) hdue.le htask hheard hs
    refine Or.inr ⟨hgoing, p', hmoment.trans (.next hnext (.refl p')), hnow, ?_⟩
    rw [htasks, (h.listens (t := now)).1, cancelledAt_of_lt hlt]

theorem reaches_timer {calls : List Call} {q : Progress Execution Execution.Result}
    (h : T.Racing now x answers)
    (hlt : ∀ c, T.cancel = some c → t < c) (hlate : ∀ a, answers.head? = some a → t < a.1)
    (hn : T.next now x answers = some (t, .timer))
    (hs : x.step t (T.cancelledAt t) .timer = some q) :
    T.Reaches S (T.play S now x answers) ⟨t, q, answers, calls⟩ := by
  have hmoment := comesTo_next (S := S) h hn
  rw [cancelledAt_of_lt hlt] at hs
  have hawaited : ∀ b ∈ T.onItsWay x answers, t < b.due := by
    intro b hb
    have hmem : b.due ∈ answers.head?.toList.map Prod.fst :=
      due_onItsWay h ▸ List.mem_map_of_mem hb
    obtain ⟨a, ha, heq⟩ := List.mem_map.1 hmem
    rw [← heq]
    exact hlate a (Option.mem_toList.1 ha)
  have hover : ¬ Races q := by
    cases h with
    | opening => cases hs
    | collecting ordered =>
      rcases Execution.step_collecting rfl hs with ⟨_, hsig, _⟩ | ⟨_, _, hsig, _⟩ |
        ⟨_, _, hsig, _⟩ | ⟨_, hsig, _⟩ | ⟨_, _, _, rfl⟩
      · cases hsig
      · cases hsig
      · cases hsig
      · cases hsig
      · exact id
  obtain ⟨p', hnext, hnow, htasks⟩ : ∃ p', (single S () t false x (T.onItsWay x answers)
      T.alarms).next T.responder = some p' ∧ p'.supervisor.now = t ∧
        p'.supervisor.tasks = [.run ⟨false, Run.afterExecution t x.container q⟩] :=
    Play.next_timer (alarms_lt hlt) hawaited hs
  refine Or.inr ⟨hover, p', hmoment.trans (.next hnext (.refl p')), hnow, ?_⟩
  rw [htasks, (h.listens (t := now)).1, cancelledAt_of_lt hlt]

theorem lt_of_lt_max (hnow : now ≤ t) {c : Instant} (h : t < max now c) : t < c :=
  (lt_max_iff.1 h).resolve_left (Nat.not_lt.2 hnow)

/-- **A play goes the way of its timeline**, one step after the other. -/
theorem Reaches.advance {p : Play Unit Unit} {s : State} (h : T.Reaches S p s)
    (hraces : Races s.progress) : T.Reaches S p (T.advance s) := by
  obtain ⟨x, hx, hracing, hlt, hcomes⟩ := h.resolve_right fun hover => hover.1 hraces
  rcases T.advance_cases s with hsame | ⟨x', t, sig, q, hx', hn, hs, heq⟩
  · rw [hsame]
    exact h
  · cases hx.symm.trans hx'
    rw [heq]
    have hstep : T.Reaches S (T.play S s.now x s.answers)
        ⟨t, q, leftover s.answers sig, s.calls ++ callsOf q⟩ := by
      rcases hracing.next hn with ⟨c, hc, rfl, rfl, _⟩ | ⟨a, ha, ht, rfl, hlater, _⟩ |
        ⟨wake, hw, ht, rfl, hlater, hlate⟩
      · exact reaches_notice hracing hc hn hs
      · have hle := hracing.le_head a ha
        rw [max_eq_right hle] at ht
        subst ht
        exact reaches_reply hracing ha (fun c hc => lt_of_lt_max hle (hlater c hc)) hn hs
      · have hle : s.now ≤ t := ht ▸ le_max_left s.now wake
        exact reaches_timer hracing (fun c hc => lt_of_lt_max hle (hlater c hc))
          (fun a ha => lt_of_lt_max hle (hlate a ha)) hn hs
    exact hstep.imp
      (fun ⟨x', hx', hracing', hlt', hcomes'⟩ => ⟨x', hx', hracing', hlt', hcomes.trans hcomes'⟩)
      (And.imp_right fun ⟨p', hcomes', hshows⟩ => ⟨p', hcomes.trans hcomes', hshows⟩)

theorem Reaches.shows {p : Play Unit Unit} {s : State} (h : T.Reaches S p s) :
    ∃ p', ComesTo T.responder p p' ∧ T.Shows s p' := by
  rcases h with ⟨x, hx, _, hlt, hcomes⟩ | ⟨_, hshows⟩
  · refine ⟨_, hcomes, rfl, ?_⟩
    rw [cancelledAt_of_lt hlt, hx]
    rfl
  · exact hshows

/-- **Until the race is over, a play comes to every state of its timeline.** -/
theorem comesTo_run (T : Timeline) (S : Supervisor) (hstart : (T.start : ℕ∞) < T.cancels) (n : ℕ)
    (hn : ∀ m < n, Races (T.run m).progress) :
    ∃ p, ComesTo T.responder (T.play S T.start (T.execution .opening) T.answers) p ∧
      T.Shows (T.run n) p := by
  have hreaches : T.Reaches S (T.play S T.start (T.execution .opening) T.answers) (T.run n) := by
    induction n with
    | zero =>
      rw [run, begin_eq hstart]
      exact Or.inl ⟨_, rfl, .opening, Instant.coe_lt_orNever.1 hstart, .refl _⟩
    | succ n ih =>
      exact (ih fun m hm => hn m (by omega)).advance (hn n (Nat.lt_succ_self n))
  exact hreaches.shows

/-! ### Results -/

theorem calls_subset {n m : ℕ} (h : n ≤ m) : (T.run n).calls ⊆ (T.run m).calls := by
  induction m, h using Nat.le_induction with
  | base => exact fun _ hc => hc
  | succ m _ ih =>
    rw [run]
    rcases T.advance_cases (T.run m) with hsame | ⟨x, t, sig, q, _, _, _, heq⟩
    · rw [hsame]
      exact ih
    · rw [heq]
      exact fun _ hc => List.mem_append_left _ (ih hc)

/-- A race that is over without a result is followed by the question for the exit code. -/
theorem exitCode_of_step {q : Progress Execution Execution.Result} {cancelled : Bool}
    (hx : Races (.going x)) (hs : x.step t cancelled sig = some q) (hq : ¬ Races q) :
    (∃ r, q = .finished r) ∨ ∃ exec, Call.exitCode exec ∈ callsOf q := by
  rcases hx with hp | ⟨exec, stdout, stderr, hp⟩
  · rcases Execution.step_opening hp hs with ⟨_, _, rfl⟩ | ⟨_, exec, _, rfl⟩ | ⟨_, e, _, rfl⟩
    · exact Or.inl ⟨_, rfl⟩
    · exact absurd (Or.inr ⟨_, _, _, rfl⟩) hq
    · exact Or.inl ⟨_, rfl⟩
  · rcases Execution.step_collecting hp hs with ⟨_, _, rfl⟩ | ⟨_, chunk, _, rfl⟩ |
      ⟨_, e, _, rfl⟩ | ⟨_, _, rfl⟩ | ⟨_, _, _, rfl⟩
    · exact Or.inl ⟨_, rfl⟩
    · exact absurd (Or.inr ⟨_, _, _, rfl⟩) hq
    · exact Or.inl ⟨_, rfl⟩
    · exact Or.inr ⟨exec, by simp [callsOf, Execution.call?]⟩
    · exact Or.inl ⟨_, rfl⟩

/-- A race that ends without a question for the exit code ends with a result. -/
theorem finished_of_over {k n : ℕ} (hstart : (T.start : ℕ∞) < T.cancels)
    (hbefore : ∀ m < k, Races (T.run m).progress) (hover : ¬ Races (T.run k).progress) (hle : k ≤ n)
    (hcalls : (T.run n).calls = [T.command]) : ∃ r, (T.run k).progress = .finished r := by
  cases k with
  | zero =>
    rw [run, begin_eq hstart] at hover
    exact absurd (Or.inl rfl) hover
  | succ k =>
    have hraces := hbefore k (Nat.lt_succ_self k)
    have hsubset := calls_subset (T := T) hle
    rw [run] at hover hsubset ⊢
    rcases T.advance_cases (T.run k) with hsame | ⟨x, t, sig, q, hx, _, hs, heq⟩
    · rw [hsame] at hover
      exact absurd hraces hover
    · rw [heq] at hover hsubset ⊢
      rw [hx] at hraces
      rcases exitCode_of_step hraces hs hover with hr | ⟨exec, hmem⟩
      · exact hr
      · have hcall : Call.exitCode exec ∈ (T.run n).calls :=
          hsubset (List.mem_append_right _ hmem)
        rw [hcalls] at hcall
        cases List.mem_singleton.1 hcall

/-- **A result that needs no exit code is the one that the play comes to, at the same moment.** -/
theorem comesTo_result (S : Supervisor) {r : Execution.Result}
    (hstart : (T.start : ℕ∞) < T.cancels) (h : T.Yields t r [T.command]) :
    ∃ p, ComesTo T.responder (T.play S T.start (T.execution .opening) T.answers) p ∧
      p.supervisor.now = t ∧
      p.supervisor.tasks = [.run ⟨T.cancelledAt t, Run.release t T.container r⟩] := by
  classical
  obtain ⟨n, rest, hn⟩ := h
  have hrun := hn n le_rfl
  have hover : ∃ m, ¬ Races (T.run m).progress := ⟨n, by rw [hrun]; exact id⟩
  -- the race is over for the first time, and nothing follows its result
  obtain ⟨k, hk, hbefore⟩ : ∃ k, ¬ Races (T.run k).progress ∧
      ∀ m < k, Races (T.run m).progress :=
    ⟨Nat.find hover, Nat.find_spec hover, fun m hm => not_not.1 (Nat.find_min hover hm)⟩
  have hle : k ≤ n := by
    by_contra hlt
    have hraces := hbefore n (Nat.not_le.1 hlt)
    rw [hrun] at hraces
    exact hraces
  obtain ⟨r', hr'⟩ := finished_of_over hstart hbefore hk hle (by rw [hrun])
  obtain ⟨p, hcomes, hnow, htasks⟩ := comesTo_run T S hstart k hbefore
  have hsame : T.run n = T.run k := run_of_finished hr' hle
  rw [← hsame, hrun] at hnow htasks
  exact ⟨p, hcomes, hnow, htasks⟩

/-- **A play comes to the result of the race** wherever that is decided without an exit code: a
caller that cancels, an engine that fails and a command that is stopped come out of a play as they
come out of its timeline, at the same moment. -/
theorem comesTo_decided (S : Supervisor) {r : Execution.Result} (h : T.Decided t r) :
    ∃ p, ComesTo T.responder (T.play S T.start (T.execution .opening) T.answers) p ∧
      p.supervisor.now = t ∧
      p.supervisor.tasks = [.run ⟨T.cancelledAt t, Run.release t T.container r⟩] :=
  comesTo_result S h.starts h.yields

end Timeline

end Isolate
