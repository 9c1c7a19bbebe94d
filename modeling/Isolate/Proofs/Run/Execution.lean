import Mathlib.Tactic
import Isolate.Run.Execution

/-!
# What an execution can be told

At each of its points an execution listens to few signals. For each point there is one statement
that lists them with what comes of them: `step_opening`, `step_collecting`, `step_inspecting` and
`step_pausing`. What holds at every point is read off these.
-/

namespace Isolate.Execution

variable {now : Instant} {cancelled : Bool} {x x' : Execution} {sig : Signal}
  {p : Progress Execution Result}

/-- While the command is opened, a cancellation goes before the engine's answer. -/
theorem step_opening (hp : x.point = .opening) (h : x.step now cancelled sig = some p) :
    (cancelled = true ∧ sig = .notice ∧ p = .finished (.error .cancelled)) ∨
      (cancelled = false ∧ ∃ exec, sig = .reply (.opened (.ok exec)) ∧
        p = .going { x with point := .collecting exec (.empty x.cap) (.empty x.cap) }) ∨
      (cancelled = false ∧ ∃ e, sig = .reply (.opened (.error e)) ∧
        p = .finished (.error (.exec e))) := by
  simp only [step, hp] at h
  split at h <;> simp_all

/-- While output is gathered, a cancellation goes before everything else. -/
theorem step_collecting {exec : ExecId} {stdout stderr : Capture}
    (hp : x.point = .collecting exec stdout stderr) (h : x.step now cancelled sig = some p) :
    (cancelled = true ∧ sig = .notice ∧ p = .finished (.error .cancelled)) ∨
      (cancelled = false ∧ ∃ chunk, sig = .reply (.output (.ok chunk)) ∧
        p = .going { x with
          point := .collecting exec (gather stdout stderr chunk).1
            (gather stdout stderr chunk).2 }) ∨
      (cancelled = false ∧ ∃ e, sig = .reply (.output (.error e)) ∧
        p = .finished (.error (.output e))) ∨
      (cancelled = false ∧ sig = .reply .ended ∧
        p = .going { x with
          point := .inspecting ⟨exec, stdout, stderr, x.started.since now⟩ 1 }) ∨
      (cancelled = false ∧ sig = .timer ∧ x.deadline.any (· ≤ now) = true ∧
        p = .finished (.ok (Ending.timeout ⟨exec, stdout, stderr, x.started.since now⟩))) := by
  simp only [step, hp] at h
  split at h <;> simp_all

theorem step_inspecting {ending : Ending} {n : ℕ} (hp : x.point = .inspecting ending n)
    (h : x.step now cancelled sig = some p) :
    ∃ answer, sig = .reply (.code answer) ∧ p = inspected now x ending n answer := by
  simp only [step, hp] at h
  split at h <;> simp_all

theorem step_pausing {ending : Ending} {n : ℕ} {wake : Instant}
    (hp : x.point = .pausing ending n wake) (h : x.step now cancelled sig = some p) :
    sig = .timer ∧ wake ≤ now ∧ p = .going { x with point := .inspecting ending (n + 1) } := by
  simp only [step, hp] at h
  split at h <;> simp_all

/-- An answer about the exit code ends an execution, or the code is asked for once more. -/
theorem inspected_eq_going {ending : Ending} {n : ℕ} {answer : Except EngineError (Option Int)}
    (h : inspected now x ending n answer = .going x') :
    answer = .ok none ∧ n < attemptLimit ∧
      x' = { x with point := .pausing ending n (now.after pause) } := by
  unfold inspected at h
  split at h
  · cases h
  · split_ifs at h
  · split_ifs at h with hn
    cases h
    exact ⟨rfl, hn, rfl⟩

/-- An execution changes nothing but the point it has come to. -/
theorem point_of_going (h : x.step now cancelled sig = some (.going x')) :
    ∃ point, x' = { x with point } := by
  cases hp : x.point with
  | opening =>
    rcases step_opening hp h with ⟨_, _, he⟩ | ⟨_, exec, _, he⟩ | ⟨_, e, _, he⟩ <;> cases he
    exact ⟨_, rfl⟩
  | collecting exec stdout stderr =>
    rcases step_collecting hp h with ⟨_, _, he⟩ | ⟨_, chunk, _, he⟩ | ⟨_, e, _, he⟩ | ⟨_, _, he⟩ |
      ⟨_, _, _, he⟩ <;> cases he
    · exact ⟨_, rfl⟩
    · exact ⟨_, rfl⟩
  | inspecting ending n =>
    obtain ⟨answer, _, he⟩ := step_inspecting hp h
    exact ⟨_, (inspected_eq_going he.symm).2.2⟩
  | pausing ending n wake =>
    obtain ⟨_, _, he⟩ := step_pausing hp h
    cases he
    exact ⟨_, rfl⟩

end Isolate.Execution
