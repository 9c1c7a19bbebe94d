import Mathlib.Data.ENat.Basic
import Isolate.Proofs.Run.Execution

/-!
# Executions in time

What an execution is told, and when, is settled by a timeline: the moment at which it starts, the
one at which its caller cancels it, and the moments at which the engine's answers arrive. Of all
that is on its way the earliest comes first; a sign to stop that comes at the same moment as an
answer comes before it, and an answer before the end of the time limit.

* `Timeline`: what happens around an execution, and when;
* `Timeline.first`: what comes first;
* `Timeline.advance`, `Timeline.run`: one signal after the other, each at its moment;
* `next_of_notice`, `next_of_reply`, `next_of_timer`: when each of the three comes first;
* `Leads`: how states follow each other;
* `progress_run`: what holds along a run of signals.
-/

namespace Isolate

/-- A moment that may never come. -/
def Instant.orNever : Option Instant → ℕ∞
  | some t => (t : ℕ)
  | none => ⊤

/-- What happens around an execution, and when. -/
structure Timeline where
  container : ContainerId
  argv : List String
  /-- The time limit. -/
  limit : Duration
  /-- The most bytes kept of each output stream. -/
  cap : ℕ
  start : Instant
  /-- When the caller cancels; none if never. -/
  cancel : Option Instant
  /-- When the engine answers that the command was opened, or that it was not. -/
  opened : Instant
  session : Except EngineError ExecId
  /-- The pieces of output and when they arrive. -/
  frames : List (Instant × Chunk)
  /-- When the output ends, and whether it fails; none if never. -/
  ending : Option (Instant × Except EngineError Unit)
  /-- What the engine answers after the end of the output. -/
  codes : List (Instant × Reply)
  ordered : (start :: opened :: (frames.map Prod.fst ++ (ending.map Prod.fst).toList)).Pairwise
    (· ≤ ·)

namespace Timeline

/-- The end of the output and what comes after it. -/
def ends (T : Timeline) : List (Instant × Reply) :=
  match T.ending with
  | some (t, .ok _) => (t, .ended) :: T.codes
  | some (t, .error e) => [(t, .output (.error e))]
  | none => []

/-- A piece of output as an answer. -/
def frame (f : Instant × Chunk) : Instant × Reply := (f.1, .output (.ok f.2))

/-- What the engine answers, in order. -/
def answers (T : Timeline) : List (Instant × Reply) :=
  (T.opened, .opened T.session) :: (T.frames.map frame ++ T.ends)

/-- The caller has cancelled the execution. -/
def cancelledAt (T : Timeline) (t : Instant) : Bool := T.cancel.any (· ≤ t)

/-- An execution on its way. -/
structure State where
  now : Instant
  progress : Progress Execution Execution.Result
  /-- The answers that have not been taken. -/
  answers : List (Instant × Reply)
  /-- What the engine was asked, the first call first. -/
  calls : List Call

/-- What the engine is asked on the way into a state. -/
def callsOf : Progress Execution Execution.Result → List Call
  | .going x => x.call?.toList
  | .finished _ => []

/-- The execution at its start. -/
def begin (T : Timeline) : State :=
  let p := Execution.begin T.start T.container T.argv T.limit T.cap (T.cancelledAt T.start)
  ⟨T.start, p, T.answers, callsOf p⟩

/-- The earlier of two signals that are on their way, the first one if they come at once. -/
def earlier : Option (Instant × Signal) → Option (Instant × Signal) → Option (Instant × Signal)
  | some a, some b => if a.1 ≤ b.1 then some a else some b
  | some a, none => some a
  | none, b => b

/-- What comes first of a sign to stop, an answer and the end of a wait that are on their way. At
one moment the sign comes before the answer, and the answer before the end of the wait. -/
def first (notice reply timer : Option (Instant × Signal)) : Option (Instant × Signal) :=
  earlier notice (earlier reply timer)

/-- The sign to stop, if the execution listens to it. -/
def notice? (T : Timeline) (now : Instant) (x : Execution) : Option (Instant × Signal) :=
  if (x.step now true .notice).isSome then T.cancel.map fun c => (max now c, .notice) else none

/-- The next answer; during a pause the engine is not asked anything. -/
def reply? (now : Instant) (x : Execution) (answers : List (Instant × Reply)) :
    Option (Instant × Signal) :=
  match x.point with
  | .pausing _ _ _ => none
  | _ => answers.head?.map fun a => (max now a.1, .reply a.2)

/-- The end of a wait. -/
def timer? (now : Instant) (x : Execution) : Option (Instant × Signal) :=
  x.wake?.map fun wake => (max now wake, .timer)

/-- What comes first of all that is on its way. -/
def next (T : Timeline) (now : Instant) (x : Execution) (answers : List (Instant × Reply)) :
    Option (Instant × Signal) :=
  first (T.notice? now x) (reply? now x answers) (timer? now x)

/-- The answers that are left after a signal. -/
def leftover (answers : List (Instant × Reply)) : Signal → List (Instant × Reply)
  | .reply _ => answers.tail
  | _ => answers

/-- The state after the next signal; a state in which there is nothing to come stays as it is. -/
def advance (T : Timeline) (s : State) : State :=
  match s.progress with
  | .finished _ => s
  | .going x =>
    match T.next s.now x s.answers with
    | some (t, sig) =>
      match x.step t (T.cancelledAt t) sig with
      | some p => ⟨t, p, leftover s.answers sig, s.calls ++ callsOf p⟩
      | none => s
    | none => s

/-- The state after so many signals. -/
def run (T : Timeline) : ℕ → State
  | 0 => T.begin
  | n + 1 => T.advance (T.run n)

/-! ### What comes first -/

variable {T : Timeline} {now t : Instant} {x : Execution} {answers : List (Instant × Reply)}

theorem earlier_eq_left {a b : Option (Instant × Signal)} {p : Instant × Signal} (ha : a = some p)
    (hb : ∀ q, b = some q → p.1 ≤ q.1) : earlier a b = some p := by
  subst ha
  cases b with
  | none => rfl
  | some q => exact if_pos (hb q rfl)

theorem earlier_eq_right {a b : Option (Instant × Signal)} {q : Instant × Signal} (hb : b = some q)
    (ha : ∀ p, a = some p → q.1 < p.1) : earlier a b = some q := by
  subst hb
  cases a with
  | none => rfl
  | some p => exact if_neg (Nat.not_le.2 (ha p rfl))

/-- A signal of the later kinds comes no earlier than both of them do. -/
theorem le_earlier {a b : Option (Instant × Signal)} (ha : ∀ p, a = some p → t ≤ p.1)
    (hb : ∀ q, b = some q → t ≤ q.1) : ∀ p, earlier a b = some p → t ≤ p.1 := by
  intro p h
  cases a with
  | none => exact hb p h
  | some a =>
    cases b with
    | none => exact ha p h
    | some b =>
      simp only [earlier] at h
      split_ifs at h
      · exact ha p h
      · exact hb p h

theorem notice?_eq_some {p : Instant × Signal} (h : T.notice? now x = some p) :
    ∃ c, (x.step now true .notice).isSome ∧ T.cancel = some c ∧ p = (max now c, .notice) := by
  unfold notice? at h
  split_ifs at h with hl
  obtain ⟨c, hc, rfl⟩ := Option.map_eq_some_iff.1 h
  exact ⟨c, hl, hc, rfl⟩

theorem timer?_eq_some {p : Instant × Signal} (h : timer? now x = some p) :
    ∃ wake, x.wake? = some wake ∧ p = (max now wake, .timer) := by
  obtain ⟨wake, hw, rfl⟩ := Option.map_eq_some_iff.1 h
  exact ⟨wake, hw, rfl⟩

theorem reply?_eq_some {p : Instant × Signal} (h : reply? now x answers = some p) :
    ∃ a, answers.head? = some a ∧ p = (max now a.1, .reply a.2) := by
  unfold reply? at h
  split at h
  · cases h
  · obtain ⟨a, ha, rfl⟩ := Option.map_eq_some_iff.1 h
    exact ⟨a, ha, rfl⟩

/-- The sign to stop comes first. -/
theorem next_of_notice (hl : (x.step now true .notice).isSome) (hc : T.cancel = some t)
    (hn : now ≤ t) (ha : ∀ a, answers.head? = some a → t ≤ a.1)
    (hw : ∀ wake, x.wake? = some wake → t ≤ max now wake) :
    T.next now x answers = some (t, .notice) := by
  refine earlier_eq_left ?_ (le_earlier (fun p hp => ?_) (fun p hp => ?_))
  · rw [notice?, if_pos hl, hc, Option.map_some, max_eq_right hn]
  · obtain ⟨a, h, rfl⟩ := reply?_eq_some hp
    exact le_max_of_le_right (ha a h)
  · obtain ⟨wake, h, rfl⟩ := timer?_eq_some hp
    exact hw wake h

/-- The next answer comes first. -/
theorem next_of_reply {r : Reply} {rest : List (Instant × Reply)} (ha : answers = (t, r) :: rest)
    (hp : ∀ ending n wake, x.point ≠ .pausing ending n wake) (hn : now ≤ t)
    (hc : ∀ c, (x.step now true .notice).isSome → T.cancel = some c → t < c)
    (hw : ∀ wake, x.wake? = some wake → t ≤ max now wake) :
    T.next now x answers = some (t, .reply r) := by
  subst ha
  refine earlier_eq_right (earlier_eq_left ?_ fun p hp => ?_) fun p hp => ?_
  · unfold reply?
    split
    · rename_i hpausing
      exact absurd hpausing (hp _ _ _)
    · rw [List.head?_cons, Option.map_some, max_eq_right hn]
  · obtain ⟨wake, h, rfl⟩ := timer?_eq_some hp
    exact hw wake h
  · obtain ⟨c, hl, h, rfl⟩ := notice?_eq_some hp
    exact lt_max_of_lt_right (hc c hl h)

/-- The end of a wait comes first. -/
theorem next_of_timer {wake : Instant} (hw : x.wake? = some wake) (ht : max now wake = t)
    (hc : ∀ c, T.cancel = some c → t < c) (ha : ∀ a, answers.head? = some a → t < a.1) :
    T.next now x answers = some (t, .timer) := by
  refine earlier_eq_right (earlier_eq_right ?_ fun p hp => ?_) fun p hp => ?_
  · rw [timer?, hw, Option.map_some, ht]
  · obtain ⟨a, h, rfl⟩ := reply?_eq_some hp
    exact lt_max_of_lt_right (ha a h)
  · obtain ⟨c, _, h, rfl⟩ := notice?_eq_some hp
    exact lt_max_of_lt_right (hc c h)

/-- The first of the last answers is the end of the output. -/
theorem ends_head {a : Instant × Reply} (h : T.ends.head? = some a) :
    ∃ how, T.ending = some (a.1, how) := by
  unfold ends at h
  split at h
  · rename_i hend
    cases h
    exact ⟨_, hend⟩
  · rename_i hend
    cases h
    exact ⟨_, hend⟩
  · cases h

/-! ### From state to state -/

/-- So many signals lead from one state to another. -/
def Leads (T : Timeline) (s s' : State) : Prop := ∃ n, T.advance^[n] s = s'

theorem Leads.refl (s : State) : T.Leads s s := ⟨0, rfl⟩

theorem Leads.of_advance {s s' : State} (h : T.Leads (T.advance s) s') : T.Leads s s' := by
  obtain ⟨n, rfl⟩ := h
  exact ⟨n + 1, rfl⟩

theorem Leads.trans {s s' s'' : State} (h : T.Leads s s') (h' : T.Leads s' s'') :
    T.Leads s s'' := by
  obtain ⟨n, rfl⟩ := h
  obtain ⟨m, rfl⟩ := h'
  exact ⟨m + n, Function.iterate_add_apply _ _ _ _⟩

theorem Leads.single {s s' : State} (h : T.advance s = s') : T.Leads s s' := ⟨1, h⟩

theorem run_eq (T : Timeline) (n : ℕ) : T.run n = T.advance^[n] T.begin := by
  induction n with
  | zero => rfl
  | succ n ih => rw [run, ih, Function.iterate_succ_apply']

theorem Leads.exists_run {s : State} (h : T.Leads T.begin s) : ∃ n, T.run n = s := by
  obtain ⟨n, rfl⟩ := h
  exact ⟨n, T.run_eq n⟩

theorem advance_eq {s : State} {sig : Signal} {p : Progress Execution Execution.Result}
    (hx : s.progress = .going x) (hn : T.next s.now x s.answers = some (t, sig))
    (hs : x.step t (T.cancelledAt t) sig = some p) :
    T.advance s = ⟨t, p, leftover s.answers sig, s.calls ++ callsOf p⟩ := by
  simp only [advance, hx, hn, hs]

theorem advance_finished {s : State} {r : Execution.Result} (h : s.progress = .finished r) :
    T.advance s = s := by
  simp only [advance, h]

/-- Nothing follows a result. -/
theorem run_of_finished {n m : ℕ} {r : Execution.Result} (h : (T.run n).progress = .finished r)
    (hm : n ≤ m) : T.run m = T.run n := by
  induction m, hm using Nat.le_induction with
  | base => rfl
  | succ m _ ih => rw [run, ih, advance_finished h]

/-- A state stays as it is, or a signal takes its execution a step further. -/
theorem advance_cases (T : Timeline) (s : State) :
    T.advance s = s ∨ ∃ x t sig p, s.progress = .going x ∧
      T.next s.now x s.answers = some (t, sig) ∧ x.step t (T.cancelledAt t) sig = some p ∧
      T.advance s = ⟨t, p, leftover s.answers sig, s.calls ++ callsOf p⟩ := by
  cases hx : s.progress with
  | finished r => exact Or.inl (advance_finished hx)
  | going x =>
    rcases hn : T.next s.now x s.answers with _ | ⟨t, sig⟩
    · simp [advance, hx, hn]
    · cases hs : x.step t (T.cancelledAt t) sig with
      | none => simp [advance, hx, hn, hs]
      | some p => exact Or.inr ⟨x, t, sig, p, rfl, hn, hs, advance_eq hx hn hs⟩

/-- **What no step of an execution undoes holds from one state on for good.** -/
theorem progress_run {P : Progress Execution Execution.Result → Prop} {n m : ℕ} (hm : n ≤ m)
    (start : P (T.run n).progress)
    (step : ∀ {x t sig p}, P (.going x) → x.step t (T.cancelledAt t) sig = some p → P p) :
    P (T.run m).progress := by
  induction m, hm using Nat.le_induction with
  | base => exact start
  | succ m _ ih =>
    rw [run]
    rcases T.advance_cases (T.run m) with h | ⟨x, t, sig, p, hx, _, hs, h⟩
    · rw [h]
      exact ih
    · rw [h]
      rw [hx] at ih
      exact step ih hs

end Timeline

end Isolate
