import Isolate.Proofs.Run.Execution
import Isolate.Run.Basic

/-!
# What a run can be told

The parts of a run (a removal, a provision, an execution) and the run itself go from one stage to
the next only on few signals. For each stage there is one statement that lists them with what comes
of them: `step_provisioning`, `step_uploading`, `step_executing` and `step_releasing`.
-/

namespace Isolate

theorem Instant.le_after (t : Instant) (d : Duration) : t ≤ t.after d := Nat.le_add_right _ _

/-- The container that a signal brings into the world. -/
def Signal.created? : Signal → Option ContainerId
  | .reply (.created (.ok id)) => some id
  | _ => none

/-- A removal ends with the first signal that it listens to. -/
theorem Removal.step_eq_some {now : Instant} {r : Removal} {sig : Signal}
    {p : Progress Removal Unit} (h : r.step now sig = some p) :
    p = .finished () ∧ ((∃ result, sig = .reply (.done result)) ∨
      sig = .timer ∧ r.giveUpAt ≤ now) := by
  unfold Removal.step at h
  split at h
  · exact ⟨(Option.some.inj h).symm, Or.inl ⟨_, rfl⟩⟩
  · split_ifs at h with hw
    exact ⟨(Option.some.inj h).symm, Or.inr ⟨rfl, hw⟩⟩
  · cases h

theorem Removal.created?_of_step {now : Instant} {r : Removal} {sig : Signal}
    {p : Progress Removal Unit} (h : r.step now sig = some p) : sig.created? = none := by
  rcases (Removal.step_eq_some h).2 with ⟨result, rfl⟩ | ⟨rfl, _⟩ <;> rfl

/-- What a provision listens to: the answer to `create`, the answer to `start` and, if the container
did not start, the end of its removal. -/
theorem Provision.step_eq_some {now : Instant} {p : Provision} {sig : Signal}
    {q : Progress Provision (Except EngineError ContainerId)} (h : p.step now sig = some q) :
    (∃ spec id, p = .creating spec ∧ sig = .reply (.created (.ok id)) ∧ q = .going (.starting id)) ∨
      (∃ spec e, p = .creating spec ∧ sig = .reply (.created (.error e)) ∧
        q = .finished (.error e)) ∨
      (∃ id, p = .starting id ∧ sig = .reply (.done (.ok ())) ∧ q = .finished (.ok id)) ∨
      (∃ id e, p = .starting id ∧ sig = .reply (.done (.error e)) ∧
        q = .going (.undoing (.begin now id) e)) ∨
      (∃ removal e, p = .undoing removal e ∧ removal.step now sig = some (.finished ()) ∧
        q = .finished (.error e)) := by
  cases p with
  | creating spec =>
    simp only [step] at h
    split at h <;> simp_all
  | starting id =>
    simp only [step] at h
    split at h <;> simp_all
  | undoing removal e =>
    simp only [step] at h
    cases hr : removal.step now sig with
    | none => simp [hr] at h
    | some r =>
      obtain ⟨rfl, _⟩ := Removal.step_eq_some hr
      simp only [hr, Option.some.injEq] at h
      exact Or.inr (Or.inr (Or.inr (Or.inr ⟨removal, e, rfl, hr, h.symm⟩)))

/-- No step of an execution creates a container. -/
theorem Execution.created?_of_step {now : Instant} {cancelled : Bool} {x : Execution} {sig : Signal}
    {p : Progress Execution Result} (h : x.step now cancelled sig = some p) :
    sig.created? = none := by
  cases hp : x.point with
  | opening =>
    rcases step_opening hp h with ⟨_, rfl, _⟩ | ⟨_, exec, rfl, _⟩ | ⟨_, e, rfl, _⟩ <;> rfl
  | collecting exec stdout stderr =>
    rcases step_collecting hp h with ⟨_, rfl, _⟩ | ⟨_, chunk, rfl, _⟩ | ⟨_, e, rfl, _⟩ | ⟨_, rfl, _⟩ |
      ⟨_, rfl, _⟩ <;> rfl
  | inspecting ending n =>
    obtain ⟨answer, rfl, _⟩ := step_inspecting hp h
    rfl
  | pausing ending n wake =>
    obtain ⟨rfl, _⟩ := step_pausing hp h
    rfl

namespace Run

variable {now stamp : ℕ} {cancelled : Bool} {stage' : Stage} {sig : Signal}

/-- A run that provides a container goes on with it, or is done if there is none. -/
theorem step_provisioning {job : Job} {provision : Provision}
    (h : (Stage.provisioning job provision).step now stamp cancelled sig = some stage') :
    (∃ p, provision.step now sig = some (.going p) ∧ stage' = .provisioning job p) ∨
      (∃ id, provision.step now sig = some (.finished (.ok id)) ∧
        stage' = acquired now stamp job id) ∨
      (∃ e, provision.step now sig = some (.finished (.error e)) ∧
        stage' = .done (.error (.provision e))) := by
  simp only [Stage.step] at h
  split at h <;> cases h
  · exact Or.inl ⟨_, ‹_›, rfl⟩
  · exact Or.inr (Or.inl ⟨_, ‹_›, rfl⟩)
  · exact Or.inr (Or.inr ⟨_, ‹_›, rfl⟩)

/-- Once the files are uploaded the execution begins; otherwise the container goes. -/
theorem step_uploading {job : Job} {id : ContainerId} {archive : Bytes}
    (h : (Stage.uploading job id archive).step now stamp cancelled sig = some stage') :
    (sig = .reply (.done (.ok ())) ∧ stage' = afterExecution now id
        (Execution.begin now id job.argv job.timeLimit job.maxOutput cancelled)) ∨
      (∃ e, sig = .reply (.done (.error e)) ∧ stage' = release now id (.error (.transfer e))) := by
  simp only [Stage.step] at h
  split at h <;> simp_all

theorem step_executing {x : Execution}
    (h : (Stage.executing x).step now stamp cancelled sig = some stage') :
    ∃ p, x.step now cancelled sig = some p ∧ stage' = afterExecution now x.container p := by
  simp only [Stage.step] at h
  obtain ⟨p, hp, rfl⟩ := Option.map_eq_some_iff.1 h
  exact ⟨p, hp, rfl⟩

/-- Once the container is gone, or given up, the run is done with the result that it kept. -/
theorem step_releasing {removal : Removal} {result : Execution.Result}
    (h : (Stage.releasing removal result).step now stamp cancelled sig = some stage') :
    removal.step now sig = some (.finished ()) ∧ stage' = .done result := by
  simp only [Stage.step] at h
  cases hr : removal.step now sig with
  | none => simp [hr] at h
  | some r =>
    obtain ⟨rfl, _⟩ := Removal.step_eq_some hr
    simp only [hr, Option.some.injEq] at h
    exact ⟨rfl, h.symm⟩

theorem step_done {result : Execution.Result} :
    (Stage.done result).step now stamp cancelled sig = none := by
  simp [Stage.step]

end Run

end Isolate
