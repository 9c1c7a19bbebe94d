import Isolate.Proofs.Run.Execution

/-!
# Executions in another place and at another time

An execution does not look at the clock but for the time between two moments, and not at its
container but to name it to the engine.

* `Execution.placed`: an execution in a container and from a moment on;
* `Call.within`: a call about a container;
* `step_placed`, `call?_placed`: what is told to an execution does the same there, and it asks the
  same.
-/

namespace Isolate

namespace Instant

theorem since_add (start t now : Instant) :
    Instant.since (start + t) (start + now) = Instant.since t now := by
  simp only [Instant.since, Nat.add_sub_add_left]

theorem after_add (start t : Instant) (d : Duration) :
    Instant.after (start + t) d = start + Instant.after t d := Nat.add_assoc _ _ _

end Instant

/-- The state of something that goes on, changed. -/
def Progress.map {σ τ ρ : Type} (f : σ → τ) : Progress σ ρ → Progress τ ρ
  | .going state => .going (f state)
  | .finished result => .finished result

/-- The call, made about a container. -/
def Call.within (id : ContainerId) : Call → Call
  | .create spec => .create spec
  | .start _ => .start id
  | .upload _ dir archive => .upload id dir archive
  | .exec _ argv => .exec id argv
  | .exitCode session => .exitCode session
  | .remove _ => .remove id

namespace Execution

variable (id : ContainerId) (start now : Instant) (cancelled : Bool) (x : Execution) (sig : Signal)

/-- The point, with the clock ahead by so much. -/
def Point.later : Point → Point
  | .pausing ending attempt wake => .pausing ending attempt (start + wake)
  | point => point

/-- The execution in a container, with the clock ahead by so much. -/
def placed : Execution where
  container := id
  argv := x.argv
  cap := x.cap
  started := start + x.started
  deadline := x.deadline.map (start + ·)
  point := x.point.later start

theorem call?_placed : (x.placed id start).call? = x.call?.map (Call.within id) := by
  obtain ⟨container, argv, cap, started, deadline, point⟩ := x
  cases point <;> rfl

theorem wake?_placed : (x.placed id start).wake? = x.wake?.map (start + ·) := by
  obtain ⟨container, argv, cap, started, deadline, point⟩ := x
  cases point <;> rfl

theorem inspected_placed (ending : Ending) (attempt : ℕ)
    (answer : Except EngineError (Option ℤ)) :
    inspected (start + now) (x.placed id start) ending attempt answer =
      (inspected now x ending attempt answer).map (placed id start) := by
  unfold inspected
  split
  · rfl
  · split_ifs <;> rfl
  · split_ifs
    · simp [Progress.map, placed, Point.later, Instant.after_add]
    · rfl

/-- **An execution does the same** in any container and at any time. -/
theorem step_placed : (x.placed id start).step (start + now) cancelled sig =
    (x.step now cancelled sig).map (Progress.map (placed id start)) := by
  obtain ⟨container, argv, cap, started, deadline, point⟩ := x
  cases point with
  | opening =>
    rcases cancelled with _ | _
    · rcases sig with (_ | _ | (e | exec) | _ | _ | _) | _ | _ | _ <;> rfl
    · rcases sig with _ | _ | _ | _ <;> rfl
  | collecting exec stdout stderr =>
    rcases cancelled with _ | _
    · rcases sig with (_ | _ | _ | (e | chunk) | _ | _) | _ | _ | _
      case reply.ended => simp [step, placed, Point.later, Progress.map, Instant.since_add]
      case timer =>
        cases deadline with
        | none => rfl
        | some d =>
          simp only [step, placed, Point.later, Option.map_some, Option.any_some,
            Nat.add_le_add_iff_left, Instant.since_add]
          split_ifs <;> rfl
      all_goals rfl
    · rcases sig with _ | _ | _ | _ <;> rfl
  | inspecting ending attempt =>
    rcases sig with (_ | _ | _ | _ | _ | answer) | _ | _ | _
    case reply.code => exact congrArg some (inspected_placed id start now _ ending attempt answer)
    all_goals rfl
  | pausing ending attempt wake =>
    rcases sig with _ | _ | _ | _
    case timer =>
      simp only [step, placed, Point.later, Nat.add_le_add_iff_left]
      split_ifs <;> rfl
    all_goals rfl

end Execution

end Isolate
