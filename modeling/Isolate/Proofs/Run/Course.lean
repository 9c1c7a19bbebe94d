import Isolate.Proofs.Run.Stages

/-!
# The course of a run

What a run has asked the engine, and how far it has come, follows from what it was told and when.
Here the courses that a run can take are written down phase by phase, each with the signals that
lead there and the calls that were made on the way; `Course.step` says that no signal leads a run
off them.

* `Told`: a signal with its moment;
* `Acquired`: a container was taken from a pool, or created and started;
* `Session`, `Inquiry`: a command whose output is read, and one whose exit code is asked for;
* `Underway`, `Concluded`: how far the use of a container has come, and how it can end;
* `Course`, `Course.begin`, `Course.step`: the whole course, at its beginning and with every signal;
* `Stage.Awaits`, `Stage.exists_step`: what a stage waits for, with which it goes on.
-/

namespace Isolate

/-- A signal to a run, the moment and the time stamp at which it comes, and whether the caller has
cancelled the run by then. -/
structure Told where
  now : Instant
  stamp : ℕ
  cancelled : Bool
  signal : Signal

namespace Told

/-- The engine answers a run that nobody has cancelled. -/
structure Heeds (t : Told) (r : Reply) : Prop where
  answer : t.signal = .reply r
  wanted : t.cancelled = false

/-- A run sees that it was cancelled. -/
structure Stops (t : Told) : Prop where
  notice : t.signal = .notice
  cancelled : t.cancelled = true

end Told

/-- A removal is answered, or given up when its time is over. -/
def Removal.OverBy (r : Removal) (t : Told) : Prop :=
  (∃ result, t.signal = .reply (.done result)) ∨ t.signal = .timer ∧ t.now = r.giveUpAt

theorem Removal.overBy_of_step {r : Removal} {t : Told} {p : Progress Removal Unit}
    (h : r.step t.now t.signal = some p) (hwake : t.now ≤ r.giveUpAt) : r.OverBy t := by
  obtain ⟨_, hdone | ⟨htimer, hnow⟩⟩ := Removal.step_eq_some h
  · exact Or.inl hdone
  · exact Or.inr ⟨htimer, le_antisymm hwake hnow⟩

namespace Run

/-! ### The phases -/

/-- A run got its container at a moment and packs its files with a time stamp: it was given an idle
container at its beginning, or it created and started one. -/
inductive Acquired (job : Job) (begun : Instant) (stamp : ℕ) :
    Option ContainerId → List Told → List Call → ContainerId → Instant → ℕ → Prop
  | taken {id : ContainerId} : Acquired job begun stamp (some id) [] [] id begun stamp
  | provided {t t' : Told} {id : ContainerId} (created : t.signal = .reply (.created (.ok id)))
      (started : t'.signal = .reply (.done (.ok ()))) :
      Acquired job begun stamp none [t, t'] [.create job.spec, .start id] id t'.now t'.stamp

/-- A command of a job that was opened, with the output that was read so far. -/
structure Session (job : Job) where
  /-- The answer to the upload, which starts the clock. -/
  unpacked : Told
  opened : Told
  exec : ExecId
  pieces : List (Told × Chunk)
  /-- The moment at which the time limit is over; none if the clock cannot show it. -/
  deadline : Option Instant
  unpacks : unpacked.Heeds (.done (.ok ()))
  opens : opened.Heeds (.opened (.ok exec))
  reads : ∀ p ∈ pieces, p.1.Heeds (.output (.ok p.2))
  ordered : unpacked.now ≤ opened.now
  limited : deadline = unpacked.now.after? job.timeLimit

namespace Session

variable {job : Job}

/-- What the run was told since the upload. -/
def told (S : Session job) : List Told := S.unpacked :: S.opened :: S.pieces.map (·.1)

/-- What is kept of the output. -/
def captures (S : Session job) : Capture × Capture :=
  S.pieces.foldl (fun kept p => Execution.gather kept.1 kept.2 p.2)
    (.empty job.maxOutput, .empty job.maxOutput)

/-- The moment of the last signal. -/
def latest (S : Session job) : Instant := ((S.pieces.getLast?.map (·.1)).getD S.opened).now

/-- The time limit is not over, or it was over before the command was opened and no time has gone
by since. -/
def InTime (S : Session job) (now : Instant) : Prop :=
  S.opened.now ≤ now ∧ ∀ d ∈ S.deadline, now ≤ max S.opened.now d

/-- What is known when the output ends. -/
def ending (S : Session job) (now : Instant) : Execution.Ending :=
  ⟨S.exec, S.captures.1, S.captures.2, S.unpacked.now.since now⟩

/-- The execution at one of its points. -/
def execution (S : Session job) (id : ContainerId) (point : Execution.Point) : Execution :=
  ⟨id, job.argv, job.maxOutput, S.unpacked.now, S.deadline, point⟩

/-- A session that was just opened. -/
def begun (u t : Told) (exec : ExecId) (unpacks : u.Heeds (.done (.ok ())))
    (opens : t.Heeds (.opened (.ok exec))) (ordered : u.now ≤ t.now) : Session job :=
  ⟨u, t, exec, [], u.now.after? job.timeLimit, unpacks, opens, by simp, ordered, rfl⟩

/-- One more piece of output. -/
def read (S : Session job) (t : Told) (chunk : Chunk) (h : t.Heeds (.output (.ok chunk))) :
    Session job :=
  { S with
    pieces := S.pieces ++ [(t, chunk)]
    reads := by
      intro p hp
      rcases List.mem_append.1 hp with hp | hp
      · exact S.reads p hp
      · rwa [List.mem_singleton.1 hp] }

theorem told_read (S : Session job) (t : Told) (chunk : Chunk)
    (h : t.Heeds (.output (.ok chunk))) : (S.read t chunk h).told = S.told ++ [t] := by
  simp [told, read]

theorem latest_read (S : Session job) (t : Told) (chunk : Chunk)
    (h : t.Heeds (.output (.ok chunk))) : (S.read t chunk h).latest = t.now := by
  simp [latest, read]

theorem captures_read (S : Session job) (t : Told) (chunk : Chunk)
    (h : t.Heeds (.output (.ok chunk))) :
    (S.read t chunk h).captures = Execution.gather S.captures.1 S.captures.2 chunk := by
  simp [captures, read]

/-- Time goes on no further than to the moment that is waited for. -/
theorem InTime.later {S : Session job} {now moment : Instant} (h : S.InTime now)
    (hle : now ≤ moment) (hwake : ∀ wake ∈ S.deadline, moment ≤ max now wake) :
    S.InTime moment := by
  exact ⟨h.1.trans hle, fun d hd => (hwake d hd).trans (max_le (h.2 d hd) (le_max_right _ _))⟩

end Session

/-- A command whose output has ended and whose exit code is asked for, once more after each time
that it was said to be running. -/
structure Inquiry (job : Job) extends Session job where
  last : Told
  retries : List (Told × Told)
  ends : last.Heeds .ended
  inTime : toSession.InTime last.now
  running : ∀ p ∈ retries, p.1.signal = .reply (.code (.ok none)) ∧ p.2.signal = .timer ∧
    p.2.now = p.1.now.after Execution.pause
  few : retries.length < Execution.attemptLimit

namespace Inquiry

variable {job : Job}

/-- What the run was told since the upload. -/
def told (Q : Inquiry job) : List Told :=
  Q.toSession.told ++ Q.last :: Q.retries.flatMap fun p => [p.1, p.2]

/-- The moment of the last signal. -/
def latest (Q : Inquiry job) : Instant := ((Q.retries.getLast?.map (·.2)).getD Q.last).now

/-- How often the exit code was asked for. -/
def attempt (Q : Inquiry job) : ℕ := Q.retries.length + 1

/-- What the output has come to. -/
def ending (Q : Inquiry job) : Execution.Ending := Q.toSession.ending Q.last.now

/-- The questions about the exit code. -/
def asked (Q : Inquiry job) : List Call := List.replicate Q.attempt (.exitCode Q.exec)

/-- An inquiry that was just begun. -/
def begun (S : Session job) (t : Told) (ends : t.Heeds .ended) (inTime : S.InTime t.now) :
    Inquiry job :=
  { S with
    last := t
    retries := []
    ends := ends
    inTime := inTime
    running := by simp
    few := by decide }

/-- The exit code is asked for once more. -/
def retry (Q : Inquiry job) (t t' : Told) (still : t.signal = .reply (.code (.ok none)))
    (woken : t'.signal = .timer) (paused : t'.now = t.now.after Execution.pause)
    (few : Q.attempt < Execution.attemptLimit) : Inquiry job :=
  { Q with
    retries := Q.retries ++ [(t, t')]
    running := by
      intro p hp
      rcases List.mem_append.1 hp with hp | hp
      · exact Q.running p hp
      · rw [List.mem_singleton.1 hp]
        exact ⟨still, woken, paused⟩
    few := by rwa [List.length_append] }

section

variable {Q : Inquiry job} {t t' : Told} {still : t.signal = .reply (.code (.ok none))}
  {woken : t'.signal = .timer} {paused : t'.now = t.now.after Execution.pause}
  {few : Q.attempt < Execution.attemptLimit}

theorem attempt_retry : (Q.retry t t' still woken paused few).attempt = Q.attempt + 1 := by
  simp [attempt, retry]

theorem told_retry : (Q.retry t t' still woken paused few).told = Q.told ++ [t, t'] := by
  simp [told, retry]

theorem latest_retry : (Q.retry t t' still woken paused few).latest = t'.now := by
  simp [latest, retry]

theorem asked_retry :
    (Q.retry t t' still woken paused few).asked = Q.asked ++ [.exitCode Q.exec] := by
  rw [asked, attempt_retry, List.replicate_succ']
  rfl

end

end Inquiry

/-- How far a run has come with its container since it had the files packed: what it was told and
what it asked from then on, and the moment of the last signal. -/
inductive Underway (job : Job) (archive : Bytes) (id : ContainerId) (begun : Instant) :
    List Told → List Call → Instant → Stage → Prop
  | uploading : Underway job archive id begun [] [.upload id workingDir archive] begun
      (.uploading job id archive)
  | opening {u : Told} (unpacks : u.Heeds (.done (.ok ()))) :
      Underway job archive id begun [u] [.upload id workingDir archive, .exec id job.argv] u.now
        (.executing ⟨id, job.argv, job.maxOutput, u.now, u.now.after? job.timeLimit, .opening⟩)
  | collecting (S : Session job) (inTime : S.InTime S.latest) :
      Underway job archive id begun S.told [.upload id workingDir archive, .exec id job.argv]
        S.latest
        (.executing (S.execution id (.collecting S.exec S.captures.1 S.captures.2)))
  | inspecting (Q : Inquiry job) :
      Underway job archive id begun Q.told
        (.upload id workingDir archive :: .exec id job.argv :: Q.asked) Q.latest
        (.executing (Q.execution id (.inspecting Q.ending Q.attempt)))
  | pausing (Q : Inquiry job) {t : Told} (still : t.signal = .reply (.code (.ok none)))
      (few : Q.attempt < Execution.attemptLimit) :
      Underway job archive id begun (Q.told ++ [t])
        (.upload id workingDir archive :: .exec id job.argv :: Q.asked) t.now
        (.executing (Q.execution id
          (.pausing Q.ending Q.attempt (t.now.after Execution.pause))))

/-- How the use of a container ends once the files were packed. The first step that fails gives the
error, and a cancellation counts until the output has ended. -/
inductive Concluded (job : Job) (archive : Bytes) (id : ContainerId) :
    List Told → List Call → Instant → Execution.Result → Prop
  | notUploaded {t : Told} {e : EngineError} (failed : t.signal = .reply (.done (.error e))) :
      Concluded job archive id [t] [.upload id workingDir archive] t.now (.error (.transfer e))
  /-- The run was cancelled before its command could be opened. -/
  | prevented {t : Told} (unpacks : t.signal = .reply (.done (.ok ())))
      (cancelled : t.cancelled = true) :
      Concluded job archive id [t] [.upload id workingDir archive] t.now (.error .cancelled)
  | cancelledOpening {u t : Told} (unpacks : u.Heeds (.done (.ok ()))) (stops : t.Stops) :
      Concluded job archive id [u, t] [.upload id workingDir archive, .exec id job.argv]
        t.now (.error .cancelled)
  | notOpened {u t : Told} {e : EngineError} (unpacks : u.Heeds (.done (.ok ())))
      (failed : t.Heeds (.opened (.error e))) :
      Concluded job archive id [u, t] [.upload id workingDir archive, .exec id job.argv]
        t.now (.error (.exec e))
  | cancelledReading (S : Session job) {t : Told} (stops : t.Stops) :
      Concluded job archive id (S.told ++ [t])
        [.upload id workingDir archive, .exec id job.argv] t.now (.error .cancelled)
  | notRead (S : Session job) {t : Told} {e : EngineError}
      (failed : t.Heeds (.output (.error e))) :
      Concluded job archive id (S.told ++ [t])
        [.upload id workingDir archive, .exec id job.argv] t.now (.error (.output e))
  | timedOut (S : Session job) {t : Told} {d : Instant} (limited : S.deadline = some d)
      (now : t.now = max S.opened.now d) (timer : t.signal = .timer)
      (wanted : t.cancelled = false) :
      Concluded job archive id (S.told ++ [t])
        [.upload id workingDir archive, .exec id job.argv] t.now (.ok (S.ending t.now).timeout)
  | notInspected (Q : Inquiry job) {t : Told} {e : EngineError}
      (failed : t.signal = .reply (.code (.error e))) :
      Concluded job archive id (Q.told ++ [t])
        (.upload id workingDir archive :: .exec id job.argv :: Q.asked) t.now (.error (.inspect e))
  | outOfRange (Q : Inquiry job) {t : Told} {code : ℤ}
      (answer : t.signal = .reply (.code (.ok (some code)))) (wide : isInt32 code = false) :
      Concluded job archive id (Q.told ++ [t])
        (.upload id workingDir archive :: .exec id job.argv :: Q.asked) t.now
        (.error (Execution.outOfRange Q.exec code))
  | stillRunning (Q : Inquiry job) {t : Told} (still : t.signal = .reply (.code (.ok none)))
      (often : Q.attempt = Execution.attemptLimit) :
      Concluded job archive id (Q.told ++ [t])
        (.upload id workingDir archive :: .exec id job.argv :: Q.asked) t.now
        (.error (Execution.noExitCode Q.exec))
  | exited (Q : Inquiry job) {t : Told} {code : ℤ}
      (answer : t.signal = .reply (.code (.ok (some code)))) (narrow : isInt32 code = true) :
      Concluded job archive id (Q.told ++ [t])
        (.upload id workingDir archive :: .exec id job.argv :: Q.asked) t.now
        (.ok (Q.ending.outcome code))

/-- How the use of a container ends, from the moment at which a run got it: the files cannot be
packed, or it is tried. -/
inductive Used (job : Job) (begun : Instant) (stamp : ℕ) (id : ContainerId) :
    List Told → List Call → Instant → Execution.Result → Prop
  | notPacked {e : Archive.PackError} (packs : Archive.pack stamp job.files = .error e) :
      Used job begun stamp id [] [] begun (.error (.transfer (.archive e)))
  | packed {archive : Bytes} {ts : List Told} {asked : List Call} {now : Instant}
      {result : Execution.Result} (packs : Archive.pack stamp job.files = .ok archive)
      (concluded : Concluded job archive id ts asked now result) :
      Used job begun stamp id ts asked now result

/-- The course of the run of a job that was given an idle container or none: what it was told, what
it asked, the moment of the last signal and the stage that it has come to. -/
inductive Course (job : Job) (begun : Instant) (stamp : ℕ) (idle : Option ContainerId) :
    List Told → List Call → Instant → Stage → Prop
  | creating (fresh : idle = none) :
      Course job begun stamp idle [] [.create job.spec] begun
        (.provisioning job (.creating job.spec))
  | notCreated {t : Told} {e : EngineError} (fresh : idle = none)
      (failed : t.signal = .reply (.created (.error e))) :
      Course job begun stamp idle [t] [.create job.spec] t.now (.done (.error (.provision e)))
  | starting {t : Told} {id : ContainerId} (fresh : idle = none)
      (created : t.signal = .reply (.created (.ok id))) :
      Course job begun stamp idle [t] [.create job.spec, .start id] t.now
        (.provisioning job (.starting id))
  | undoing {t t' : Told} {id : ContainerId} {e : EngineError} (fresh : idle = none)
      (created : t.signal = .reply (.created (.ok id)))
      (failed : t'.signal = .reply (.done (.error e))) :
      Course job begun stamp idle [t, t'] [.create job.spec, .start id, .remove id] t'.now
        (.provisioning job (.undoing (.begin t'.now id) e))
  | notStarted {t t' t'' : Told} {id : ContainerId} {e : EngineError} (fresh : idle = none)
      (created : t.signal = .reply (.created (.ok id)))
      (failed : t'.signal = .reply (.done (.error e)))
      (gone : (Removal.begin t'.now id).OverBy t'') :
      Course job begun stamp idle [t, t', t''] [.create job.spec, .start id, .remove id] t''.now
        (.done (.error (.provision e)))
  | underway {ts us : List Told} {before asked : List Call} {id : ContainerId} {stamp' : ℕ}
      {archive : Bytes} {got now : Instant} {stage : Stage}
      (acquired : Acquired job begun stamp idle ts before id got stamp')
      (packs : Archive.pack stamp' job.files = .ok archive)
      (underway : Underway job archive id got us asked now stage) :
      Course job begun stamp idle (ts ++ us) (before ++ asked) now stage
  | releasing {ts us : List Told} {before asked : List Call} {id : ContainerId} {stamp' : ℕ}
      {got now : Instant} {result : Execution.Result}
      (acquired : Acquired job begun stamp idle ts before id got stamp')
      (used : Used job got stamp' id us asked now result) :
      Course job begun stamp idle (ts ++ us) (before ++ asked ++ [.remove id]) now
        (.releasing (.begin now id) result)
  | done {ts us : List Told} {before asked : List Call} {id : ContainerId} {stamp' : ℕ}
      {got now : Instant} {t : Told} {result : Execution.Result}
      (acquired : Acquired job begun stamp idle ts before id got stamp')
      (used : Used job got stamp' id us asked now result)
      (gone : (Removal.begin now id).OverBy t) :
      Course job begun stamp idle (ts ++ us ++ [t]) (before ++ asked ++ [.remove id]) t.now
        (.done result)

/-! ### Every signal keeps a run on its course -/

variable {job : Job} {begun : Instant} {stamp : ℕ} {idle : Option ContainerId} {archive : Bytes}
  {id : ContainerId} {ts : List Told} {asked : List Call} {now : Instant} {stage stage' : Stage}
  {t : Told}

/-- What comes of an answer about the exit code. -/
theorem Inquiry.answered (Q : Inquiry job) (archive : Bytes) (id : ContainerId) (begun : Instant)
    {answer : Except EngineError (Option ℤ)} (h : t.signal = .reply (.code answer)) :
    (∃ x, Execution.inspected t.now (Q.execution id (.inspecting Q.ending Q.attempt)) Q.ending
        Q.attempt answer = .going x ∧ x.call? = none ∧
      Underway job archive id begun (Q.told ++ [t])
        (.upload id workingDir archive :: .exec id job.argv :: Q.asked) t.now (.executing x)) ∨
    (∃ result, Execution.inspected t.now (Q.execution id (.inspecting Q.ending Q.attempt)) Q.ending
        Q.attempt answer = .finished result ∧
      Concluded job archive id (Q.told ++ [t])
        (.upload id workingDir archive :: .exec id job.argv :: Q.asked) t.now result) := by
  cases answer with
  | error e => exact Or.inr ⟨_, rfl, .notInspected Q h⟩
  | ok code? =>
    cases code? with
    | none =>
      by_cases few : Q.attempt < Execution.attemptLimit
      · exact Or.inl ⟨_, if_pos few, rfl, .pausing Q h few⟩
      · have often : Q.attempt = Execution.attemptLimit := by
          have := Q.few
          unfold Inquiry.attempt at few ⊢
          omega
        exact Or.inr ⟨_, if_neg few, .stillRunning Q h often⟩
    | some code =>
      by_cases narrow : isInt32 code = true
      · exact Or.inr ⟨_, if_pos narrow, .exited Q h narrow⟩
      · exact Or.inr ⟨_, if_neg narrow, .outOfRange Q h (by simpa using narrow)⟩

/-- **Every signal to a run with a container** takes it further with it, or leads to the container's
removal. -/
theorem Underway.step (h : Underway job archive id begun ts asked now stage) (hle : now ≤ t.now)
    (hwake : ∀ wake ∈ stage.wake?, t.now ≤ max now wake)
    (hstep : stage.step t.now t.stamp t.cancelled t.signal = some stage') :
    Underway job archive id begun (ts ++ [t]) (asked ++ stage'.call?.toList) t.now stage' ∨
      ∃ result, Concluded job archive id (ts ++ [t]) asked t.now result ∧
        stage' = release t.now id result := by
  cases h with
  | uploading =>
    rcases step_uploading hstep with ⟨hsig, rfl⟩ | ⟨e, hsig, rfl⟩
    · cases hc : t.cancelled with
      | true => exact Or.inr ⟨_, .prevented hsig hc, by simp [Execution.begin, afterExecution]⟩
      | false => exact Or.inl (.opening ⟨hsig, hc⟩)
    · exact Or.inr ⟨_, .notUploaded hsig, rfl⟩
  | @opening u unpacks =>
    obtain ⟨p, hp, rfl⟩ := step_executing hstep
    rcases Execution.step_opening rfl hp with ⟨hc, hsig, rfl⟩ | ⟨hc, exec, hsig, rfl⟩ |
      ⟨hc, e, hsig, rfl⟩
    · exact Or.inr ⟨_, .cancelledOpening unpacks ⟨hsig, hc⟩, rfl⟩
    · exact Or.inl (.collecting (.begun u t exec unpacks ⟨hsig, hc⟩ hle)
        ⟨le_refl _, fun d _ => le_max_left _ _⟩)
    · exact Or.inr ⟨_, .notOpened unpacks ⟨hsig, hc⟩, rfl⟩
  | collecting S inTime =>
    have inTime' : S.InTime t.now := inTime.later hle hwake
    obtain ⟨p, hp, rfl⟩ := step_executing hstep
    rcases Execution.step_collecting rfl hp with ⟨hc, hsig, rfl⟩ | ⟨hc, chunk, hsig, rfl⟩ |
      ⟨hc, e, hsig, rfl⟩ | ⟨hc, hsig, rfl⟩ | ⟨hc, hsig, hover, rfl⟩
    · exact Or.inr ⟨_, .cancelledReading S ⟨hsig, hc⟩, rfl⟩
    · have hread : Underway job archive id begun _ _ _ _ :=
        .collecting (S.read t chunk ⟨hsig, hc⟩) (by rwa [Session.latest_read])
      rw [Session.told_read, Session.captures_read, Session.latest_read] at hread
      exact Or.inl hread
    · exact Or.inr ⟨_, .notRead S ⟨hsig, hc⟩, rfl⟩
    · exact Or.inl (.inspecting (.begun S t ⟨hsig, hc⟩ inTime'))
    · obtain ⟨d, hd, hdue⟩ := (Option.any_eq_true _ _).1 hover
      have hlate : max S.opened.now d ≤ t.now := max_le inTime'.1 (of_decide_eq_true hdue)
      exact Or.inr ⟨_, .timedOut S hd (le_antisymm (inTime'.2 d hd) hlate) hsig hc, rfl⟩
  | inspecting Q =>
    obtain ⟨p, hp, rfl⟩ := step_executing hstep
    obtain ⟨answer, hsig, rfl⟩ := Execution.step_inspecting rfl hp
    rcases Q.answered archive id begun hsig with ⟨x, hx, hcall, hgoing⟩ | ⟨result, hx, hend⟩
    · rw [hx]
      refine Or.inl ?_
      show Underway job archive id begun _ (_ ++ x.call?.toList) t.now (.executing x)
      rwa [hcall, Option.toList_none, List.append_nil]
    · rw [hx]
      exact Or.inr ⟨result, hend, rfl⟩
  | @pausing Q u still few =>
    obtain ⟨p, hp, rfl⟩ := step_executing hstep
    obtain ⟨hsig, hnow, rfl⟩ := Execution.step_pausing rfl hp
    have paused : t.now = u.now.after Execution.pause :=
      le_antisymm ((hwake _ rfl).trans (max_le (Instant.le_after _ _) (le_refl _))) hnow
    have hretry : Underway job archive id begun _ _ _ _ :=
      .inspecting (Q.retry u t still hsig paused few)
    rw [Inquiry.told_retry, Inquiry.asked_retry, Inquiry.attempt_retry, Inquiry.latest_retry]
      at hretry
    rw [List.append_assoc]
    exact Or.inl hretry

/-- A run that got its container goes on with it, or removes it if its files cannot be packed. -/
theorem Course.ofAcquired {before : List Call} {got : Instant} {stamp' : ℕ}
    (h : Acquired job begun stamp idle ts before id got stamp') :
    Course job begun stamp idle ts (before ++ (acquired got stamp' job id).call?.toList) got
      (acquired got stamp' job id) := by
  unfold Run.acquired
  split
  · simpa [Stage.call?] using Course.underway h ‹_› .uploading
  · simpa [Stage.call?, release, Removal.call, Removal.begin] using
      Course.releasing h (.notPacked ‹_›)

/-- **A run begins on its course.** -/
theorem Course.begin (job : Job) (begun : Instant) (stamp : ℕ) (idle : Option ContainerId) :
    Course job begun stamp idle [] (Run.begin begun stamp job idle).call?.toList begun
      (Run.begin begun stamp job idle) := by
  cases idle with
  | none => exact .creating rfl
  | some id =>
    show Course job begun stamp (some id) [] ([] ++ (acquired begun stamp job id).call?.toList) begun
      (acquired begun stamp job id)
    exact .ofAcquired .taken

/-- **Every signal keeps a run on its course.** -/
theorem Course.step (h : Course job begun stamp idle ts asked now stage) (hle : now ≤ t.now)
    (hwake : ∀ wake ∈ stage.wake?, t.now ≤ max now wake)
    (hstep : stage.step t.now t.stamp t.cancelled t.signal = some stage') :
    Course job begun stamp idle (ts ++ [t]) (asked ++ stage'.call?.toList) t.now stage' := by
  cases h with
  | creating fresh =>
    rcases step_provisioning hstep with ⟨p, hp, rfl⟩ | ⟨id, hp, rfl⟩ | ⟨e, hp, rfl⟩ <;>
      rcases Provision.step_eq_some hp with ⟨_, id', _, hsig, hq⟩ | ⟨_, e', _, hsig, hq⟩ |
        ⟨_, he, _⟩ | ⟨_, _, he, _⟩ | ⟨_, _, he, _⟩ <;> first | cases he | cases hq
    · exact .starting fresh hsig
    · exact .notCreated fresh hsig
  | starting fresh created =>
    rcases step_provisioning hstep with ⟨p, hp, rfl⟩ | ⟨id, hp, rfl⟩ | ⟨e, hp, rfl⟩ <;>
      rcases Provision.step_eq_some hp with ⟨_, _, he, _⟩ | ⟨_, _, he, _⟩ |
        ⟨id', he, hsig, hq⟩ | ⟨id', e', he, hsig, hq⟩ | ⟨_, _, he, _⟩ <;>
      cases he <;> cases hq
    · exact .undoing fresh created hsig
    · subst fresh
      exact Course.ofAcquired (.provided created hsig)
  | undoing fresh created failed =>
    rcases step_provisioning hstep with ⟨p, hp, rfl⟩ | ⟨id, hp, rfl⟩ | ⟨e, hp, rfl⟩ <;>
      rcases Provision.step_eq_some hp with ⟨_, _, he, _⟩ | ⟨_, _, he, _⟩ |
        ⟨_, he, _⟩ | ⟨_, _, he, _⟩ | ⟨removal, e', he, hr, hq⟩ <;>
      cases he <;> cases hq
    have htime := (hwake _ rfl).trans (max_le (Instant.le_after _ _) (le_refl _))
    exact .notStarted fresh created failed (Removal.overBy_of_step hr htime)
  | underway acquired packs underway =>
    rcases underway.step hle hwake hstep with hgoing | ⟨result, hend, rfl⟩
    · rw [List.append_assoc, List.append_assoc]
      exact .underway acquired packs hgoing
    · rw [List.append_assoc]
      exact .releasing acquired (.packed packs hend)
  | releasing acquired used =>
    obtain ⟨hr, rfl⟩ := step_releasing hstep
    have htime := (hwake _ rfl).trans (max_le (Instant.le_after _ _) (le_refl _))
    rw [Stage.call?, Option.toList_none, List.append_nil]
    exact .done acquired used (Removal.overBy_of_step hr htime)
  | notCreated fresh failed => simp [step_done] at hstep
  | notStarted fresh created failed gone => simp [step_done] at hstep
  | done acquired used gone => simp [step_done] at hstep

/-! ### A run is never stuck -/

end Run

/-- The answers that a call can have. -/
def Call.Fits (c : Call) (r : Reply) : Prop :=
  match c with
  | .create _ => ∃ result, r = .created result
  | .start _ => ∃ result, r = .done result
  | .upload _ _ _ => ∃ result, r = .done result
  | .exec _ _ => ∃ result, r = .opened result
  | .exitCode _ => ∃ result, r = .code result
  | .remove _ => ∃ result, r = .done result

/-- What a command's output goes on with. -/
def Reply.Continues (r : Reply) : Prop := (∃ result, r = .output result) ∨ r = .ended

namespace Run

variable {now : Instant} {stamp : ℕ} {cancelled : Bool} {stage : Stage} {sig : Signal}

/-- Output is being read. -/
def Stage.isReading : Stage → Bool
  | .executing ⟨_, _, _, _, _, .collecting _ _ _⟩ => true
  | _ => false

/-- A cancellation is seen: a command is being opened, or its output is being read. -/
def Stage.isCancellable : Stage → Bool
  | .executing ⟨_, _, _, _, _, .opening⟩ => true
  | stage => stage.isReading

/-- What a stage waits for: the answer to what the engine was asked, more output, or a moment; or
the cancellation alone, where it is seen and the caller has cancelled. -/
def Stage.Awaits (now : Instant) (cancelled : Bool) (stage : Stage) : Signal → Prop
  | .reply r => (cancelled && stage.isCancellable) = false ∧
      ((∃ call ∈ stage.call?, call.Fits r) ∨ stage.isReading = true ∧ r.Continues)
  | .timer => (cancelled && stage.isCancellable) = false ∧ ∃ wake ∈ stage.wake?, wake ≤ now
  | .notice => (cancelled && stage.isCancellable) = true
  | .proceed => False

/-- A call that is answered is carried on with the answer. -/
theorem Stage.exists_step_reply {call : Call} {r : Reply} (hcall : stage.call? = some call)
    (fits : call.Fits r) (wanted : (cancelled && stage.isCancellable) = false) :
    ∃ stage', stage.step now stamp cancelled (.reply r) = some stage' := by
  cases stage with
  | provisioning job provision =>
    cases provision <;> cases hcall <;> obtain ⟨result, rfl⟩ := fits <;> cases result <;>
      exact ⟨_, rfl⟩
  | uploading job id archive =>
    cases hcall
    obtain ⟨result, rfl⟩ := fits
    cases result <;> exact ⟨_, rfl⟩
  | executing x =>
    obtain ⟨_, _, _, _, _, point⟩ := x
    cases point <;> cases hcall <;> obtain ⟨result, rfl⟩ := fits
    · obtain rfl : cancelled = false := by simpa [isCancellable] using wanted
      cases result <;> exact ⟨_, rfl⟩
    · exact ⟨_, rfl⟩
  | releasing removal result =>
    cases hcall
    obtain ⟨result, rfl⟩ := fits
    exact ⟨_, rfl⟩
  | done result => cases hcall

/-- What comes of the output is read. -/
theorem Stage.exists_step_output {r : Reply} (reading : stage.isReading = true)
    (continues : r.Continues) (wanted : (cancelled && stage.isCancellable) = false) :
    ∃ stage', stage.step now stamp cancelled (.reply r) = some stage' := by
  unfold isReading at reading
  split at reading
  · obtain rfl : cancelled = false := by simpa [isCancellable, isReading] using wanted
    obtain ⟨result, rfl⟩ | rfl := continues
    · cases result <;> exact ⟨_, rfl⟩
    · exact ⟨_, rfl⟩
  · cases reading

/-- Once the moment that is waited for has come, nothing more is waited for. -/
theorem Stage.exists_step_timer {wake : Instant} (hwake : stage.wake? = some wake)
    (hle : wake ≤ now) (wanted : (cancelled && stage.isCancellable) = false) :
    ∃ stage', stage.step now stamp cancelled .timer = some stage' := by
  cases stage with
  | provisioning job provision =>
    cases provision <;> cases hwake
    simp [Stage.step, Provision.step, Removal.step, hle]
  | uploading job id archive => cases hwake
  | executing x =>
    obtain ⟨_, _, _, _, deadline, point⟩ := x
    cases point with
    | opening => cases hwake
    | collecting exec stdout stderr =>
      obtain rfl : deadline = some wake := hwake
      obtain rfl : cancelled = false := by simpa [isCancellable, isReading] using wanted
      simp [Stage.step, Execution.step, hle]
    | inspecting ending attempt => cases hwake
    | pausing ending attempt moment =>
      cases hwake
      simp [Stage.step, Execution.step, hle]
  | releasing removal result =>
    cases hwake
    simp [Stage.step, Removal.step, hle]
  | done result => cases hwake

/-- **A run goes on with everything that it waits for.** -/
theorem Stage.exists_step (h : stage.Awaits now cancelled sig) :
    ∃ stage', stage.step now stamp cancelled sig = some stage' := by
  cases sig with
  | reply r =>
    obtain ⟨wanted, ⟨call, hcall, fits⟩ | ⟨reading, continues⟩⟩ := h
    · exact exists_step_reply hcall fits wanted
    · exact exists_step_output reading continues wanted
  | timer =>
    obtain ⟨wanted, wake, hwake, hle⟩ := h
    exact exists_step_timer hwake hle wanted
  | notice =>
    obtain ⟨rfl, hstage⟩ := Bool.and_eq_true_iff.1 h
    unfold isCancellable isReading at hstage
    split at hstage
    · exact ⟨_, rfl⟩
    · split at hstage
      · exact ⟨_, rfl⟩
      · cases hstage
  | proceed => cases h

end Run

end Isolate
