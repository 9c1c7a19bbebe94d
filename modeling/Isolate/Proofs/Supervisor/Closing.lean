import Isolate.Proofs.Run.Stages
import Isolate.Supervisor.Step

/-!
# What a request to stop can be told

For each state of a closing there is one statement that says what has to be the case for it to go on
and what becomes of the supervisor: `stepClosing_signalling` to `stepClosing_removing`.
-/

namespace Isolate.Supervisor

variable {s s' : Supervisor} {k : ℕ} {sig : Signal}

theorem stepClosing_signalling (h : s.stepClosing k .signalling sig = some s') :
    sig = .proceed ∧ s' = { s with stopping := true }.goOn k (.closing .gathering) := by
  cases sig with
  | proceed => exact ⟨rfl, (Option.some.inj h).symm⟩
  | _ => simp [stepClosing] at h

/-- The tasks that nobody waits for yet are taken over. -/
theorem stepClosing_gathering (h : s.stepClosing k .gathering sig = some s') :
    sig = .proceed ∧ s' = { s with unjoined := [] }.goOn k (.closing (.joining s.unjoined)) := by
  cases sig with
  | proceed => exact ⟨rfl, (Option.some.inj h).symm⟩
  | _ => simp [stepClosing] at h

/-- The tasks are waited for one after the other, then the pools are emptied. -/
theorem stepClosing_joining {tasks : List ℕ} (h : s.stepClosing k (.joining tasks) sig = some s') :
    sig = .proceed ∧ ((tasks = [] ∧
        s' = s.goOn k (.closing (.sweep s.now (s.pools.map (·.language)) []))) ∨
      (∃ task rest, tasks = task :: rest ∧ s.hasEnded task = true ∧
        s' = s.goOn k (.closing (.joining rest)))) := by
  cases sig with
  | proceed =>
    cases tasks with
    | nil => exact ⟨rfl, Or.inl ⟨rfl, (Option.some.inj h).symm⟩⟩
    | cons task rest =>
      simp only [stepClosing] at h
      split_ifs at h with he
      exact ⟨rfl, Or.inr ⟨task, rest, rfl, he, (Option.some.inj h).symm⟩⟩
  | _ => cases tasks <;> simp [stepClosing] at h

theorem stepClosing_sweeping {languages : List String}
    (h : s.stepClosing k (.sweeping languages) sig = some s') :
    sig = .proceed ∧ ((languages = [] ∧ s' = s.goOn k (.closing .ended)) ∨
      (∃ language rest, languages = language :: rest ∧
        ((∃ pool, s.pool? language = some pool ∧
            s' = (s.setPool pool.drain.2).goOn k (.closing (.sweep s.now rest pool.idle))) ∨
          (s.pool? language = none ∧ s' = s.goOn k (.closing (.sweep s.now rest [])))))) := by
  cases sig with
  | proceed =>
    cases languages with
    | nil => exact ⟨rfl, Or.inl ⟨rfl, (Option.some.inj h).symm⟩⟩
    | cons language rest =>
      refine ⟨rfl, Or.inr ⟨language, rest, rfl, ?_⟩⟩
      simp only [stepClosing] at h
      split at h
      · exact Or.inl ⟨_, ‹_›, (Option.some.inj h).symm⟩
      · exact Or.inr ⟨‹_›, (Option.some.inj h).symm⟩
  | _ => cases languages <;> simp [stepClosing] at h

theorem stepClosing_removing {removal : Removal} {rest : List ContainerId} {languages : List String}
    (h : s.stepClosing k (.removing removal rest languages) sig = some s') :
    removal.step s.now sig = some (.finished ()) ∧
      s' = s.goOn k (.closing (.sweep s.now languages rest)) := by
  simp only [stepClosing] at h
  cases hr : removal.step s.now sig with
  | none => simp [hr] at h
  | some r =>
    obtain ⟨rfl, _⟩ := Removal.step_eq_some hr
    simp only [hr, Option.some.injEq] at h
    exact ⟨rfl, h.symm⟩

theorem stepClosing_ended : s.stepClosing k .ended sig = none := by
  simp [stepClosing]

end Isolate.Supervisor
