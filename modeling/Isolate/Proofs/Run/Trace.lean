import Isolate.Proofs.Run.Service

/-!
# Runs from signal to signal

* `Trace`: the signals that lead a run from one stage to another, and the calls that it makes;
* `Trace.of_acquired`: a run from the moment on at which it has its container;
* `yields_of_trace`, `Ends`, `ends_of_trace`: what becomes of a run that is told what a service
  brings.
-/

namespace Isolate.Run

/-- Signals lead a run from one stage to another, each at a moment up to which the run may wait. -/
inductive Trace : Instant → Stage → List Told → List Call → Instant → Stage → Prop
  | refl (now : Instant) (stage : Stage) : Trace now stage [] [] now stage
  | tell {now now' : Instant} {t : Told} {ts : List Told} {calls : List Call}
      {stage stage' stage'' : Stage} (later : now ≤ t.now)
      (wakes : ∀ wake ∈ stage.wake?, t.now ≤ max now wake)
      (step : stage.step t.now t.stamp t.cancelled t.signal = some stage')
      (rest : Trace t.now stage' ts calls now' stage'') :
      Trace now stage (t :: ts) (stage'.call?.toList ++ calls) now' stage''

variable {now now' : Instant} {stage stage' : Stage} {ts : List Told} {calls : List Call}
  {t gone : Told} {id : ContainerId} {job : Job} {result : Execution.Result}

/-- One more signal. -/
theorem Trace.concat (trace : Trace now stage ts calls now' stage') {stage'' : Stage}
    (later : now' ≤ t.now) (wakes : ∀ wake ∈ stage'.wake?, t.now ≤ max now' wake)
    (step : stage'.step t.now t.stamp t.cancelled t.signal = some stage'') :
    Trace now stage (ts ++ [t]) (calls ++ stage''.call?.toList) t.now stage'' := by
  induction trace with
  | refl now stage => simpa using Trace.tell later wakes step (.refl _ _)
  | tell later' wakes' step' _ ih =>
    rw [List.append_assoc]
    exact .tell later' wakes' step' (ih later wakes step)

/-- A run is done once its container is gone. -/
theorem Trace.of_releasing {removal : Removal} {kept : Execution.Result}
    (trace : Trace now (.releasing removal kept) ts calls now' (.done result)) :
    result = kept ∧ calls = [] ∧ ts.length = 1 := by
  cases trace with
  | tell later wakes step rest =>
    obtain ⟨-, rfl⟩ := step_releasing step
    cases rest with
    | refl => exact ⟨rfl, rfl, rfl⟩
    | tell later wakes step rest => rw [step_done] at step; cases step

/-- A run that lets its container go is told only that it is gone. -/
theorem Trace.of_release {told : List Told} {kept : Execution.Result}
    (trace : Trace now (release now id kept) (told ++ [gone]) calls now' (.done result)) :
    result = kept ∧ calls = [] ∧ told = [] := by
  obtain ⟨hresult, hcalls, hlength⟩ := trace.of_releasing
  refine ⟨hresult, hcalls, List.length_eq_zero_iff.1 ?_⟩
  simpa using hlength

theorem acquired_of_ok {got : Instant} {stamp : ℕ} {archive : Bytes}
    (h : Archive.pack stamp job.files = .ok archive) :
    acquired got stamp job id = .uploading job id archive := by
  rw [acquired, h]

theorem acquired_of_error {got : Instant} {stamp : ℕ} {e : Archive.PackError}
    (h : Archive.pack stamp job.files = .error e) :
    acquired got stamp job id = release got id (.error (.transfer (.archive e))) := by
  rw [acquired, h]

/-- What a run is told after it got its container, and what it asks from then on. -/
theorem Trace.of_acquired {begun got : Instant} {stamp stamp' : ℕ} {idle : Option ContainerId}
    {earlier : List Told} {asked : List Call}
    (acq : Acquired job begun stamp idle earlier asked id got stamp')
    (trace : Trace begun (begin begun stamp job idle) (earlier ++ ts) calls now stage) :
    ∃ later, (begin begun stamp job idle).call?.toList ++ calls =
        asked ++ ((acquired got stamp' job id).call?.toList ++ later) ∧
      Trace got (acquired got stamp' job id) ts later now stage := by
  cases acq with
  | taken => exact ⟨calls, rfl, trace⟩
  | @provided t t' _ created started =>
    obtain ⟨now, stamp, cancelled, sig⟩ := t
    obtain ⟨now', stamp', cancelled', sig'⟩ := t'
    obtain rfl : sig = _ := created
    obtain rfl : sig' = _ := started
    cases trace with
    | tell _ _ step rest =>
      cases step
      cases rest with
      | tell _ _ step' rest' =>
        cases step'
        exact ⟨_, rfl, rest'⟩

/-! ### Runs that a service serves -/

/-- The end of a time limit that fits the clock or not. -/
theorem after?_eq (start : Instant) (d : Duration) : start.after? d =
    (if (start.after? d).isSome then some (Instant.after 0 d) else none).map (start + ·) := by
  have hadd : start.after d = start + Instant.after 0 d := Instant.after_add start 0 d
  unfold Instant.after?
  split
  · simp only [Option.isSome_some, if_true, Option.map_some, hadd]
  · simp only [Option.isSome_none, Bool.false_eq_true, if_false, Option.map_none]

/-- The execution of a job, started at moment zero; its time limit fits the clock or not. -/
def execution (job : Job) (fits : Bool) : Execution where
  container := ⟨""⟩
  argv := job.argv
  cap := job.maxOutput
  started := 0
  deadline := if fits then some (Instant.after 0 job.timeLimit) else none
  point := .opening

theorem afterExecution_begin (start : Instant) (id : ContainerId) (job : Job) :
    afterExecution start id
        (Execution.begin start id job.argv job.timeLimit job.maxOutput false) =
      .executing ((execution job (start.after? job.timeLimit).isSome).placed id start) := by
  have hdeadline : (execution job (start.after? job.timeLimit).isSome).deadline.map (start + ·) =
      start.after? job.timeLimit := (after?_eq start job.timeLimit).symm
  unfold Execution.begin Execution.placed
  rw [hdeadline]
  rfl

variable {E : Service}

/-- **A run that executes a command** comes to what the service makes of the execution. -/
theorem yields_of_trace {start : Instant} {moment : ℕ} {x : Execution} {left : List (ℕ × Reply)}
    {told : List Told} (hnow : now = start + moment)
    (trace : Trace now (.executing (x.placed id start)) (told ++ [gone]) calls now' (.done result))
    (attends : E.Attends start left told) :
    ∃ cs, E.Yields left moment x result cs ∧ calls = cs.map (Call.within id) ++ [.remove id] := by
  induction told generalizing now moment x left calls with
  | nil =>
    -- one signal does not lead from an execution to the end of the run
    cases trace with
    | tell _ _ step rest =>
      obtain ⟨p, _, rfl⟩ := step_executing step
      cases p <;> cases rest
  | cons t told ih =>
    obtain ⟨⟨moment', hmoment, brings⟩, attends⟩ := attends
    cases trace with
    | tell later wakes step rest =>
      obtain ⟨p, hstep, rfl⟩ := step_executing step
      rw [hnow, hmoment] at later wakes
      rw [hmoment, Execution.step_placed] at hstep
      obtain ⟨q, hq, rfl⟩ := Option.map_eq_some_iff.1 hstep
      have hwakes : ∀ wake ∈ x.wake?, moment' ≤ max moment wake := by
        intro wake hw
        have hplaced : start + wake ∈ (x.placed id start).wake? := by
          rw [Execution.wake?_placed, Option.mem_def.1 hw]
          rfl
        rcases le_max_iff.1 (wakes (start + wake) hplaced) with hle | hle
        · exact le_max_of_le_left (Nat.le_of_add_le_add_left hle)
        · exact le_max_of_le_right (Nat.le_of_add_le_add_left hle)
      have next : E.Next left moment x moment' t.cancelled t.signal q :=
        ⟨Nat.le_of_add_le_add_left later, hwakes, brings, hq⟩
      cases q with
      | going x' =>
        obtain ⟨cs, yields, hcalls⟩ := ih hmoment rest attends
        refine ⟨_, .going next yields, ?_⟩
        rw [hcalls, List.map_append, List.append_assoc]
        have hcall : (x'.placed id start).call?.toList =
            x'.call?.toList.map (Call.within id) := by
          rw [Execution.call?_placed]
          cases x'.call? <;> rfl
        exact congrArg (· ++ _) hcall
      | finished r =>
        obtain ⟨rfl, rfl, -⟩ := rest.of_release
        exact ⟨[], .finished next, rfl⟩

/-- The time limit of a job fits the clock when its execution starts. -/
def fits (job : Job) (told : List Told) : Bool :=
  told.head?.any fun u => (u.now.after? job.timeLimit).isSome

theorem fits_cons (job : Job) (u : Told) (told : List Told) :
    fits job (u :: told) = (u.now.after? job.timeLimit).isSome := by
  rw [fits, List.head?_cons, Option.any_some]

/-- How a run ends that is served, and what it asks the engine after the upload. -/
inductive Ends (E : Service) (job : Job) (fits : Bool) (id : ContainerId) :
    Execution.Result → List Call → Prop
  | notUploaded {e : EngineError} (fails : E.upload = .error e) :
      Ends E job fits id (.error (.transfer e)) [.remove id]
  /-- The caller cancels before the execution starts. -/
  | prevented {c : ℤ} (uploads : E.upload = .ok ()) (cancel : c ∈ E.cancel) (early : c ≤ 0) :
      Ends E job fits id (.error .cancelled) [.remove id]
  | executed {result : Execution.Result} {cs : List Call} (uploads : E.upload = .ok ())
      (wanted : ∀ c ∈ E.cancel, 0 ≤ c)
      (yields : E.Yields E.answers 0 (execution job fits) result cs) :
      Ends E job fits id result (.exec id job.argv :: (cs.map (Call.within id) ++ [.remove id]))

/-- **A run that uploads its files** ends as the service settles it. -/
theorem ends_of_trace {archive : Bytes} {told : List Told}
    (trace : Trace now (.uploading job id archive) (told ++ [gone]) calls now' (.done result))
    (serves : E.Serves told) : Ends E job (fits job told) id result calls := by
  cases told with
  | nil =>
    -- one signal does not lead from the upload to the end of the run
    cases trace with
    | tell _ _ step rest =>
      rcases step_uploading step with ⟨_, rfl⟩ | ⟨e, _, rfl⟩
      · unfold afterExecution at rest
        split at rest <;> cases rest
      · cases rest
  | cons u told =>
    obtain ⟨⟨moment, hmoment, brings⟩, attends⟩ := serves u rfl
    obtain rfl : moment = 0 := Nat.add_left_cancel hmoment.symm
    cases trace with
    | tell _ _ step rest =>
      rcases step_uploading step with ⟨hsig, rfl⟩ | ⟨e, hsig, rfl⟩
      · have uploads : E.upload = .ok () := by
          have hhead : E.replies.head? = some (0, .done (.ok ())) := (hsig ▸ brings).answer
          simpa [Service.replies] using hhead
        cases hc : u.cancelled with
        | true =>
          obtain ⟨c, hcancel, hle⟩ := (hc ▸ brings).exists_cancel
          rw [hc] at rest
          obtain ⟨rfl, rfl, -⟩ := Trace.of_release rest
          exact .prevented uploads hcancel hle
        | false =>
          have wanted := (hc ▸ brings).le_cancel
          rw [hsig] at attends
          rw [hc, afterExecution_begin] at rest
          rw [afterExecution_begin, fits_cons]
          obtain ⟨cs, yields, rfl⟩ := yields_of_trace (Nat.add_zero _).symm rest attends
          exact .executed uploads wanted yields
      · have fails : E.upload = .error e := by
          have hhead : E.replies.head? = some (0, .done (.error e)) := (hsig ▸ brings).answer
          simpa [Service.replies] using hhead
        obtain ⟨rfl, rfl, -⟩ := rest.of_release
        exact .notUploaded fails

/-! ### Two runs -/

theorem quiet_execution (clear : E.Clear job.timeLimit) (fits : Bool) :
    E.Quiet E.answers 0 (execution job fits) where
  answers c hc a ha := clear.answers c hc a (List.mem_cons_of_mem _ ha)
  limit c hc d hd := by
    simp only [execution, Option.mem_def] at hd
    split_ifs at hd
    rw [← Option.some.inj hd]
    exact clear.limit c hc
  now _ c hc := clear.answers c hc _ List.mem_cons_self

/-- A cancellation comes before the start of the execution or after it. -/
theorem not_wanted (clear : E.Clear job.timeLimit) {c : ℤ} (cancel : c ∈ E.cancel) (early : c ≤ 0)
    (wanted : ∀ c ∈ E.cancel, 0 ≤ c) : False :=
  clear.answers c cancel _ List.mem_cons_self (le_antisymm early (wanted c cancel))

/-- **Two runs of a job that the same service serves** end alike and ask the same, each about its
own container. -/
theorem ends_unique {fits : Bool} {id' : ContainerId} {result' : Execution.Result}
    {calls' : List Call} (clear : E.Clear job.timeLimit) (h : Ends E job fits id result calls)
    (h' : Ends E job fits id' result' calls') :
    result = result' ∧ ∃ cs : List Call, calls = cs.map (Call.within id) ∧
      calls' = cs.map (Call.within id') := by
  cases h with
  | notUploaded fails =>
    cases h' with
    | notUploaded fails' =>
      cases fails.symm.trans fails'
      exact ⟨rfl, [.remove id], rfl, rfl⟩
    | prevented uploads _ _ => cases fails.symm.trans uploads
    | executed uploads _ _ => cases fails.symm.trans uploads
  | prevented uploads cancel early =>
    cases h' with
    | notUploaded fails => cases fails.symm.trans uploads
    | prevented _ _ _ => exact ⟨rfl, [.remove id], rfl, rfl⟩
    | executed _ wanted _ => exact (not_wanted clear cancel early wanted).elim
  | @executed _ cs uploads wanted yields =>
    cases h' with
    | notUploaded fails => cases fails.symm.trans uploads
    | prevented _ cancel early => exact (not_wanted clear cancel early wanted).elim
    | executed _ _ yields' =>
      obtain ⟨rfl, rfl⟩ := Service.yields_unique (quiet_execution clear fits) yields yields'
      refine ⟨rfl, .exec id job.argv :: (cs ++ [.remove id]), ?_, ?_⟩ <;> simp [Call.within]

end Isolate.Run
