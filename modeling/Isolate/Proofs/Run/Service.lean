import Isolate.Proofs.Run.Course
import Isolate.Proofs.Run.Placement
import Isolate.Proofs.Run.Timeline

/-!
# What an execution is told from outside

An execution hears of the engine, of its caller and of the clock. If the engine's answers arrive at
settled times after its start and so does the cancellation, then everything that becomes of it is
settled, unless the cancellation comes at the very moment of something else.

* `Service`: the answers and the cancellation, in time from the start of the execution;
* `Service.first`: what comes first, in the order of `Timeline.first`;
* `Service.Brings`, `Service.Attends`: signals that are those of a service;
* `Service.Yields`: what becomes of an execution that starts at moment zero;
* `Service.next_unique`, `Service.yields_unique`: there is only one thing that can become of it.
-/

namespace Isolate

/-- An answer to the wish to read output. -/
def Reply.isOutput : Reply → Bool
  | .output _ => true
  | .ended => true
  | _ => false

/-- What comes to a run from outside once it has its container, in time from the start of its
execution. -/
structure Service where
  /-- The answer to the upload. It starts the execution. -/
  upload : Except EngineError Unit
  /-- The answers after it, and when they arrive. -/
  answers : List (ℕ × Reply)
  /-- When the caller cancels, perhaps before the start; none if never. -/
  cancel : Option ℤ

namespace Service

variable (E : Service)

/-- All answers, and when they arrive. -/
def replies : List (ℕ × Reply) := (0, .done E.upload) :: E.answers

/-- An answer on its way. -/
def onItsWay (answer : Option (ℕ × Reply)) : Option (ℕ × Signal) :=
  answer.map fun a => (a.1, .reply a.2)

/-- What comes first if a signal comes at a moment and these answers are left. Where the end of a
wait comes the engine may not have been asked anything yet: it competes with output only. -/
def first (left : List (ℕ × Reply)) (moment : ℕ) : Signal → Option (ℕ × Signal)
  | .reply _ => Timeline.first none (onItsWay left.head?) none
  | .timer =>
    Timeline.first none (onItsWay (left.head?.filter (·.2.isOutput))) (some (moment, .timer))
  | sig => Timeline.first (some (moment, sig)) (onItsWay left.head?) none

/-- The signal comes at its time if these answers are left: none of them has come before it, and of
what comes at its moment it comes first. -/
structure Brings (left : List (ℕ × Reply)) (moment : ℕ) (cancelled : Bool) (sig : Signal) :
    Prop where
  never : E.cancel = none → cancelled = false
  early : ∀ c ∈ E.cancel, moment < c → cancelled = false
  late : ∀ c ∈ E.cancel, c < moment → cancelled = true
  prompt : ∀ a ∈ left.head?, moment ≤ a.1
  first : Service.first left moment sig = some (moment, sig)

/-- The signals after a start are those of the service. -/
def Attends (start : Instant) : List (ℕ × Reply) → List Told → Prop
  | _, [] => True
  | left, t :: ts =>
    (∃ moment, t.now = start + moment ∧ E.Brings left moment t.cancelled t.signal) ∧
      Attends start (Timeline.leftover left t.signal) ts

/-- The run, from the answer to the upload on, is told what the service brings. -/
def Serves (told : List Told) : Prop := ∀ u ∈ told.head?, E.Attends u.now E.replies told

/-- The cancellation does not come at the moment of an answer or at the end of the time limit. -/
structure Clear (limit : Duration) : Prop where
  answers : ∀ c ∈ E.cancel, ∀ a ∈ E.replies, c ≠ a.1
  limit : ∀ c ∈ E.cancel, c ≠ Instant.after 0 limit

variable {E} {left : List (ℕ × Reply)} {now moment moment' : ℕ} {cancelled cancelled' : Bool}
  {sig sig' : Signal} {x : Execution} {q q' : Progress Execution Execution.Result}

theorem Brings.exists_cancel (h : E.Brings left moment true sig) : ∃ c ∈ E.cancel, c ≤ moment := by
  cases hc : E.cancel with
  | none => cases h.never hc
  | some c =>
    refine ⟨c, rfl, ?_⟩
    by_contra hlt
    cases h.early c hc (not_le.1 hlt)

theorem Brings.le_cancel (h : E.Brings left moment false sig) : ∀ c ∈ E.cancel, moment ≤ c := by
  intro c hc
  by_contra hlt
  cases h.late c hc (not_le.1 hlt)

/-- An answer comes at its own moment. -/
theorem Brings.answer {r : Reply} (h : E.Brings left moment cancelled (.reply r)) :
    left.head? = some (moment, r) := by
  have hfirst := h.first
  cases hhead : left.head? with
  | none => simp [Service.first, onItsWay, Timeline.first, Timeline.earlier, hhead] at hfirst
  | some a =>
    simp only [Service.first, onItsWay, Timeline.first, Timeline.earlier, hhead, Option.map_some,
      Option.some.injEq, Prod.mk.injEq, Signal.reply.injEq] at hfirst
    rw [← hfirst.1, ← hfirst.2]

/-- The end of a wait is noticed only if no output has arrived by then. -/
theorem Brings.patient {a : ℕ × Reply} (h : E.Brings left moment cancelled .timer)
    (ha : left.head? = some a) (output : a.2.isOutput = true) : moment < a.1 := by
  by_contra hlate
  have hanswer : onItsWay (left.head?.filter (·.2.isOutput)) = some (a.1, .reply a.2) := by
    have hkept : (some a).filter (·.2.isOutput) = some a := Option.filter_some_pos output
    rw [ha, hkept, onItsWay, Option.map_some]
  have hbefore : Timeline.earlier (some (a.1, .reply a.2)) (some (moment, .timer)) =
      some (a.1, .reply a.2) := if_pos (Nat.not_lt.1 hlate)
  have hfirst := h.first
  rw [Service.first, Timeline.first, hanswer, hbefore] at hfirst
  cases hfirst

/-- The next answer comes at its moment to a run that is not cancelled yet. -/
theorem brings_answer {r : Reply} (wanted : ∀ c ∈ E.cancel, (moment : ℤ) ≤ c) :
    E.Brings ((moment, r) :: left) moment false (.reply r) where
  never _ := rfl
  early _ _ _ := rfl
  late c hc hlt := absurd (wanted c hc) (not_le.2 hlt)
  prompt a h := by
    cases h
    exact le_rfl
  first := rfl

/-! ### What comes next -/

/-- A signal of the service comes next to an execution that was told something last at a given
moment, and it goes on with it. -/
structure Next (E : Service) (left : List (ℕ × Reply)) (now : ℕ) (x : Execution) (moment : ℕ)
    (cancelled : Bool) (sig : Signal) (q : Progress Execution Execution.Result) : Prop where
  later : now ≤ moment
  wakes : ∀ wake ∈ x.wake?, moment ≤ max now wake
  brings : E.Brings left moment cancelled sig
  step : x.step moment cancelled sig = some q

/-- The execution looks out for a cancellation. -/
def Heeds (x : Execution) : Prop :=
  x.point = .opening ∨ ∃ exec stdout stderr, x.point = .collecting exec stdout stderr

/-- From the end of the output on nobody looks at the cancellation. -/
theorem heeds_or (x : Execution) : Heeds x ∨ (∃ ending n, x.point = .inspecting ending n) ∨
    ∃ ending n wake, x.point = .pausing ending n wake := by
  cases hp : x.point with
  | opening => exact Or.inl (Or.inl hp)
  | collecting exec stdout stderr => exact Or.inl (Or.inr ⟨exec, stdout, stderr, hp⟩)
  | inspecting ending n => exact Or.inr (Or.inl ⟨ending, n, rfl⟩)
  | pausing ending n wake => exact Or.inr (Or.inr ⟨ending, n, wake, rfl⟩)

/-- What an execution that looks out for a cancellation can be told. -/
theorem step_heeds (heeds : Heeds x) (h : x.step moment cancelled sig = some q) :
    (cancelled = true ∧ sig = .notice ∧ q = .finished (.error .cancelled)) ∨
      (cancelled = false ∧ ∃ r, sig = .reply r ∧ (x.wake?.isSome = true → r.isOutput = true)) ∨
      (cancelled = false ∧ sig = .timer ∧ (∃ o, q = .finished (.ok o)) ∧
        ∃ wake, x.wake? = some wake ∧ x.deadline = some wake ∧ wake ≤ moment) := by
  rcases heeds with hp | ⟨exec, stdout, stderr, hp⟩
  · have hwake : x.wake? = none := by simp [Execution.wake?, hp]
    rw [hwake]
    rcases Execution.step_opening hp h with stop | ⟨hc, _, rfl, _⟩ | ⟨hc, _, rfl, _⟩
    · exact Or.inl stop
    · exact Or.inr (Or.inl ⟨hc, _, rfl, nofun⟩)
    · exact Or.inr (Or.inl ⟨hc, _, rfl, nofun⟩)
  · have hwake : x.wake? = x.deadline := by simp [Execution.wake?, hp]
    rcases Execution.step_collecting hp h with stop | ⟨hc, _, rfl, _⟩ | ⟨hc, _, rfl, _⟩ |
      ⟨hc, rfl, _⟩ | ⟨hc, rfl, hover, rfl⟩
    · exact Or.inl stop
    · exact Or.inr (Or.inl ⟨hc, _, rfl, fun _ => rfl⟩)
    · exact Or.inr (Or.inl ⟨hc, _, rfl, fun _ => rfl⟩)
    · exact Or.inr (Or.inl ⟨hc, _, rfl, fun _ => rfl⟩)
    · obtain ⟨wake, hd, hle⟩ := (Option.any_eq_true ..).1 hover
      exact Or.inr (Or.inr ⟨hc, rfl, ⟨_, rfl⟩, wake, hwake ▸ hd, hd, of_decide_eq_true hle⟩)

/-- No cancellation comes at a moment at which something else can come as well. -/
structure Quiet (E : Service) (left : List (ℕ × Reply)) (now : ℕ) (x : Execution) : Prop where
  answers : ∀ c ∈ E.cancel, ∀ a ∈ left, c ≠ a.1
  limit : ∀ c ∈ E.cancel, ∀ d ∈ x.deadline, c ≠ d
  now : Heeds x → ∀ c ∈ E.cancel, c ≠ now

variable {r r' : Reply} {wake : Instant}

/-- A timer goes off at the moment that was waited for. -/
theorem Next.moment_eq (next : E.Next left now x moment cancelled sig q)
    (hwake : x.wake? = some wake) (hle : wake ≤ moment) : moment = max now wake :=
  le_antisymm (next.wakes wake hwake) (max_le next.later hle)

theorem Quiet.notice_reply (quiet : E.Quiet left now x)
    (next : E.Next left now x moment true .notice q)
    (next' : E.Next left now x moment' false (.reply r) q') : False := by
  obtain ⟨c, hc, hle⟩ := next.brings.exists_cancel
  have hhead := next'.brings.answer
  have hfirst := next.brings.prompt _ hhead
  have hlate := next'.brings.le_cancel c hc
  refine quiet.answers c hc _ (List.mem_of_mem_head? hhead) ?_
  dsimp only
  omega

theorem Quiet.notice_timer (quiet : E.Quiet left now x) (heeds : Heeds x)
    (hwake : x.wake? = some wake) (hdeadline : x.deadline = some wake) (hle : wake ≤ moment')
    (next : E.Next left now x moment true .notice q)
    (next' : E.Next left now x moment' false .timer q') : False := by
  obtain ⟨c, hc, hcle⟩ := next.brings.exists_cancel
  have hlate := next'.brings.le_cancel c hc
  have hfirst := next.wakes wake hwake
  rw [next'.moment_eq hwake hle] at hlate
  have hnow := quiet.now heeds c hc
  have hlimit := quiet.limit c hc wake hdeadline
  omega

theorem Next.reply_timer (next : E.Next left now x moment false (.reply r) q)
    (hwake : x.wake? = some wake) (output : r.isOutput = true) (hle : wake ≤ moment')
    (next' : E.Next left now x moment' false .timer q') : False := by
  have hhead := next.brings.answer
  have hfirst := next'.brings.patient hhead output
  have hlast := next.wakes wake hwake
  rw [next'.moment_eq hwake hle] at hfirst
  exact absurd hlast (Nat.not_le.2 hfirst)

/-- Two signals that can come next are the same, or both are notices of the cancellation. -/
def Agree (q q' : Progress Execution Execution.Result) (sig sig' : Signal) (moment moment' : ℕ) :
    Prop :=
  q = q' ∧ sig = sig' ∧ moment = moment' ∨
    q = .finished (.error .cancelled) ∧ q' = .finished (.error .cancelled)

theorem Next.agree_reply (next : E.Next left now x moment cancelled (.reply r) q)
    (next' : E.Next left now x moment' cancelled' (.reply r') q')
    (hstep : ∀ moment, x.step moment cancelled (.reply r) = x.step moment cancelled' (.reply r)) :
    Agree q q' (.reply r) (.reply r') moment moment' := by
  have hhead := (next.brings.answer).symm.trans (next'.brings.answer)
  obtain ⟨rfl, rfl⟩ := Prod.mk.inj (Option.some.inj hhead)
  exact Or.inl ⟨Option.some.inj (next.step.symm.trans ((hstep moment).trans next'.step)), rfl, rfl⟩

/-- **There is one signal that can come next,** but for the moment at which an execution notices
that it was cancelled. -/
theorem next_unique (quiet : E.Quiet left now x) (next : E.Next left now x moment cancelled sig q)
    (next' : E.Next left now x moment' cancelled' sig' q') :
    Agree q q' sig sig' moment moment' := by
  rcases heeds_or x with heeds | ⟨ending, n, hp⟩ | ⟨ending, n, wake, hp⟩
  · rcases step_heeds heeds next.step with ⟨rfl, rfl, rfl⟩ | ⟨rfl, r, rfl, houtput⟩ |
      ⟨rfl, rfl, _, wake, hwake, hdeadline, hle⟩ <;>
    rcases step_heeds heeds next'.step with ⟨rfl, rfl, rfl⟩ | ⟨rfl, r', rfl, houtput'⟩ |
      ⟨rfl, rfl, _, wake', hwake', hdeadline', hle'⟩
    · exact Or.inr ⟨rfl, rfl⟩
    · exact (quiet.notice_reply next next').elim
    · exact (quiet.notice_timer heeds hwake' hdeadline' hle' next next').elim
    · exact (quiet.notice_reply next' next).elim
    · exact next.agree_reply next' fun _ => rfl
    · exact (next.reply_timer hwake' (houtput (by simp [hwake'])) hle' next').elim
    · exact (quiet.notice_timer heeds hwake hdeadline hle next' next).elim
    · exact (next'.reply_timer hwake (houtput' (by simp [hwake])) hle next).elim
    · obtain rfl : wake = wake' := Option.some.inj (hwake.symm.trans hwake')
      obtain rfl := (next.moment_eq hwake hle).trans (next'.moment_eq hwake hle').symm
      exact Or.inl ⟨Option.some.inj (next.step.symm.trans next'.step), rfl, rfl⟩
  · obtain ⟨answer, rfl, _⟩ := Execution.step_inspecting hp next.step
    obtain ⟨answer', rfl, _⟩ := Execution.step_inspecting hp next'.step
    exact next.agree_reply next' fun moment => by simp [Execution.step, hp]
  · obtain ⟨rfl, hle, rfl⟩ := Execution.step_pausing hp next.step
    obtain ⟨rfl, hle', rfl⟩ := Execution.step_pausing hp next'.step
    have hwake : x.wake? = some wake := by simp [Execution.wake?, hp]
    exact Or.inl ⟨rfl, rfl, (next.moment_eq hwake hle).trans (next'.moment_eq hwake hle').symm⟩

/-! ### What becomes of an execution -/

/-- An execution that was last told something at a moment comes to its result with the answers that
are left, and asks the engine for something on the way. -/
inductive Yields (E : Service) :
    List (ℕ × Reply) → ℕ → Execution → Execution.Result → List Call → Prop
  | going {left : List (ℕ × Reply)} {now moment : ℕ} {cancelled : Bool} {sig : Signal}
      {x x' : Execution} {result : Execution.Result} {calls : List Call}
      (next : E.Next left now x moment cancelled sig (.going x'))
      (later : Yields E (Timeline.leftover left sig) moment x' result calls) :
      Yields E left now x result (x'.call?.toList ++ calls)
  | finished {left : List (ℕ × Reply)} {now moment : ℕ} {cancelled : Bool} {sig : Signal}
      {x : Execution} {result : Execution.Result}
      (next : E.Next left now x moment cancelled sig (.finished result)) :
      Yields E left now x result []

theorem mem_leftover {a : ℕ × Reply} (h : a ∈ Timeline.leftover left sig) : a ∈ left := by
  cases sig with
  | reply r => exact List.mem_of_mem_tail h
  | _ => exact h

theorem Quiet.next {x' : Execution} (quiet : E.Quiet left now x)
    (next : E.Next left now x moment cancelled sig (.going x')) :
    E.Quiet (Timeline.leftover left sig) moment x' := by
  obtain ⟨point, rfl⟩ := Execution.point_of_going next.step
  refine ⟨fun c hc a ha => quiet.answers c hc a (mem_leftover ha), quiet.limit, ?_⟩
  intro heeds' c hc
  -- only an answer leaves an execution looking out for a cancellation
  rcases heeds_or x with heeds | ⟨ending, n, hp⟩ | ⟨ending, n, wake, hp⟩
  · rcases step_heeds heeds next.step with ⟨_, _, hq⟩ | ⟨_, r, rfl, _⟩ | ⟨_, _, ⟨_, hq⟩, _⟩
    · cases hq
    · exact quiet.answers c hc _ (List.mem_of_mem_head? (next.brings.answer))
    · cases hq
  · obtain ⟨answer, _, hq⟩ := Execution.step_inspecting hp next.step
    obtain ⟨_, _, hx⟩ := Execution.inspected_eq_going hq.symm
    cases hx
    rcases heeds' with h | ⟨_, _, _, h⟩ <;> cases h
  · obtain ⟨_, _, hq⟩ := Execution.step_pausing hp next.step
    cases hq
    rcases heeds' with h | ⟨_, _, _, h⟩ <;> cases h

/-- **Only one thing can become of an execution.** -/
theorem yields_unique {result result' : Execution.Result} {calls calls' : List Call}
    (quiet : E.Quiet left now x) (h : E.Yields left now x result calls)
    (h' : E.Yields left now x result' calls') : result = result' ∧ calls = calls' := by
  induction h generalizing result' calls' with
  | going next later ih =>
    cases h' with
    | going next' later' =>
      rcases next_unique quiet next next' with ⟨hq, rfl, rfl⟩ | ⟨hq, _⟩
      · cases hq
        obtain ⟨rfl, rfl⟩ := ih (quiet.next next) later'
        exact ⟨rfl, rfl⟩
      · cases hq
    | finished next' =>
      rcases next_unique quiet next next' with ⟨hq, _⟩ | ⟨hq, _⟩ <;> cases hq
  | finished next =>
    cases h' with
    | going next' later' =>
      rcases next_unique quiet next next' with ⟨hq, _⟩ | ⟨_, hq⟩ <;> cases hq
    | finished next' =>
      rcases next_unique quiet next next' with ⟨hq, _⟩ | ⟨hq, hq'⟩
      · cases hq
        exact ⟨rfl, rfl⟩
      · cases hq
        cases hq'
        exact ⟨rfl, rfl⟩

end Service

end Isolate
