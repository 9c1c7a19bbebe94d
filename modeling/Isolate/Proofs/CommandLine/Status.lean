import Isolate.CommandLine.Plan
import Isolate.Proofs.Config.Loading
import Isolate.Proofs.Supervisor.Limit

/-!
# The status of a command that runs a file

Whether a submission succeeded is told to others by the status of the command alone, of which the
parent of the process sees eight bits. All failures of the command itself have status one, a time
limit has a status of its own, and every other exit code of the submission is passed on as far as
the eight bits go.

* `Supervisor.outcome_of_run`: the exit codes of outcomes;
* `Returns`: the results of a run that nobody interrupts;
* `Plan.Ends`: the ends of a plan, whatever the answers to its questions are;
* `status_of_run`: the status of a command that runs a file.
-/

namespace Isolate

/-! ### The exit codes of outcomes -/

namespace Run

/-- An outcome has the exit code of a time limit or one that the daemon has reported and that fits
into 32 bits. -/
theorem Concluded.exitCode {job : Job} {archive : Bytes} {id : ContainerId} {ts : List Told}
    {asked : List Call} {now : Instant} {o : Outcome}
    (h : Concluded job archive id ts asked now (.ok o)) :
    o.timedOut = true ∧ o.exitCode = timeoutExitCode ∨
      o.timedOut = false ∧ isInt32 o.exitCode = true ∧
        ∃ t ∈ ts, t.signal = .reply (.code (.ok (some o.exitCode))) := by
  cases h with
  | timedOut => exact Or.inl ⟨rfl, rfl⟩
  | exited Q answer narrow => exact Or.inr ⟨rfl, narrow, _, by simp, answer⟩

end Run

namespace Supervisor

variable {c : Config} {epoch : ℕ} {s₀ b s : Supervisor} {pre post : List Event}
  {request : Request} {cancelled flag : Bool} {o : Outcome}

/-- Only a run whose language is known has an outcome. -/
theorem known_of_outcome (start : start? c epoch = some s₀) (before : s₀.after? pre = some b)
    (after : s₀.after? (pre ++ .run request cancelled :: post) = some s)
    (kept : Event.drop b.tasks.length ∉ post)
    (outcome : s.tasks[b.tasks.length]? = some (.run ⟨flag, .done (.ok o)⟩)) :
    ∃ job, c.job? request = some job := by
  cases known : c.job? request with
  | some job => exact ⟨job, rfl⟩
  | none =>
    obtain ⟨_, _, _, found, _, _, hstage⟩ := follows_run
      (P := fun _ _ _ stage => stage = .done (.error (.unsupported request.language)))
      start before after kept
      (fun h _ _ hstep => by
        rw [h, Run.step_done] at hstep
        cases hstep)
      (fun indexed config => by
        obtain ⟨stage, now, found, hnow, hwake, -, -, h⟩ :=
          follows_unsupported indexed (config ▸ known)
        exact ⟨stage, now, found, hnow, hwake, h⟩)
    rw [outcome] at found
    cases found
    cases hstage

/-- **The exit codes of outcomes.** -/
theorem outcome_of_run (start : start? c epoch = some s₀) (before : s₀.after? pre = some b)
    (after : s₀.after? (pre ++ .run request cancelled :: post) = some s)
    (kept : Event.drop b.tasks.length ∉ post)
    (outcome : s.tasks[b.tasks.length]? = some (.run ⟨flag, .done (.ok o)⟩)) :
    o.timedOut = true ∧ o.exitCode = timeoutExitCode ∨
      o.timedOut = false ∧ isInt32 o.exitCode = true ∧
        ∃ t ∈ heard b.tasks.length cancelled (b.beginRun request cancelled) post,
          t.signal = .reply (.code (.ok (some o.exitCode))) := by
  obtain ⟨job, known⟩ := known_of_outcome start before after kept outcome
  obtain ⟨_, _, _, found, _, _, course⟩ := course_of_run start before after kept known
  rw [outcome] at found
  cases found
  obtain ⟨before', us, _, _, _, _, t, htold, concluded⟩ := course.outcome
  refine concluded.exitCode.imp_right ?_
  rintro ⟨hintime, hnarrow, u, hu, hanswer⟩
  exact ⟨hintime, hnarrow, u, by rw [htold]; simp [hu], hanswer⟩

end Supervisor

/-! ### The ends of a plan -/

/-- A run of the request under the configuration returns the result, if nobody drops or cancels it,
whatever the engine answers and whatever else happens. -/
def Returns (c : Config) (request : Request) (result : Except RunError Outcome) : Prop :=
  ∃ (epoch : ℕ) (s₀ b s : Supervisor) (pre post : List Event) (flag : Bool),
    Supervisor.start? c epoch = some s₀ ∧ s₀.after? pre = some b ∧
    s₀.after? (pre ++ .run request false :: post) = some s ∧
    Event.drop b.tasks.length ∉ post ∧ Event.cancel b.tasks.length ∉ post ∧
    s.tasks[b.tasks.length]? = some (.run ⟨flag, .done result⟩)

theorem Returns.outcome {c : Config} {request : Request} {o : Outcome}
    (h : Returns c request (.ok o)) :
    o.timedOut = true ∧ o.exitCode = timeoutExitCode ∨
      o.timedOut = false ∧ isInt32 o.exitCode = true := by
  obtain ⟨_, _, _, _, _, _, _, start, before, after, kept, _, outcome⟩ := h
  exact (Supervisor.outcome_of_run start before after kept outcome).imp_right fun h => ⟨h.1, h.2.1⟩

namespace CommandLine

/-- A plan can come to its end with a report, having had runs with these results. Files, the daemon
and many runs at once may answer anything. -/
inductive Plan.Ends : Plan → List (Except RunError Outcome) → Report → Prop
  | finish {report : Report} : Ends (.finish report) [] report
  | read {path : String} {next : Except FileFault Bytes → Plan} (answer : Except FileFault Bytes)
      {results : List (Except RunError Outcome)} {report : Report}
      (rest : Ends (next answer) results report) : Ends (.read path next) results report
  | write {path text : String} {next : Except FileFault Unit → Plan}
      (answer : Except FileFault Unit) {results : List (Except RunError Outcome)} {report : Report}
      (rest : Ends (next answer) results report) : Ends (.write path text next) results report
  | connect {host : Option String} {next : Except DaemonError Unit → Plan}
      (answer : Except DaemonError Unit) {results : List (Except RunError Outcome)}
      {report : Report} (rest : Ends (next answer) results report) :
      Ends (.connect host next) results report
  | ping {next : Except DaemonError Unit → Plan} (answer : Except DaemonError Unit)
      {results : List (Except RunError Outcome)} {report : Report}
      (rest : Ends (next answer) results report) : Ends (.ping next) results report
  | run {config : Config} {request : Request} {next : Except RunError Outcome → Plan}
      {result : Except RunError Outcome} (returns : Returns config request result)
      {results : List (Except RunError Outcome)} {report : Report}
      (rest : Ends (next result) results report) :
      Ends (.run config request next) (result :: results) report
  | bench {config : Config} {request : Request} {count concurrency : ℕ}
      {next : Option Bench → Plan} (answer : Option Bench)
      {results : List (Except RunError Outcome)} {report : Report}
      (rest : Ends (next answer) results report) :
      Ends (.bench config request count concurrency next) results report

namespace Plan

variable {results : List (Except RunError Outcome)} {report : Report}

/-- The command failed without having run anything. -/
def Fails (results : List (Except RunError Outcome)) (report : Report) : Prop :=
  results = [] ∧ report.status = 1

theorem ends_finish {r : Report} (h : (finish r).Ends results report) :
    results = [] ∧ report = r := by
  cases h
  exact ⟨rfl, rfl⟩

theorem fails_of_fail {f : Failure} (h : (fail f).Ends results report) : Fails results report := by
  obtain ⟨rfl, rfl⟩ := ends_finish h
  exact ⟨rfl, rfl⟩

theorem ends_readText {path failing : String} {next : String → Plan}
    (h : (readText path failing next).Ends results report) :
    Fails results report ∨ ∃ text, (next text).Ends results report := by
  cases h with
  | read answer rest =>
    cases answer with
    | error fault => exact Or.inl (fails_of_fail rest)
    | ok bytes =>
      dsimp only at rest
      split at rest
      · exact Or.inr ⟨_, rest⟩
      · exact Or.inl (fails_of_fail rest)

theorem ends_readText? {path : Option String} {failing : String} {next : Option String → Plan}
    (h : (readText? path failing next).Ends results report) :
    Fails results report ∨ ∃ text, (next text).Ends results report := by
  cases path with
  | none => exact Or.inr ⟨none, h⟩
  | some path => exact (ends_readText h).imp_right fun ⟨text, rest⟩ => ⟨some text, rest⟩

theorem ends_timeLimit {seconds : Option Binary64} {next : Option Duration → Plan}
    (h : (timeLimit seconds next).Ends results report) :
    Fails results report ∨ ∃ limit, (next limit).Ends results report := by
  cases seconds with
  | none => exact Or.inr ⟨none, h⟩
  | some seconds =>
    simp only [timeLimit] at h
    split at h
    · exact Or.inr ⟨_, h⟩
    · exact Or.inl (fails_of_fail h)

theorem ends_reach {host : Option String} {next : Plan}
    (h : (reach host next).Ends results report) :
    Fails results report ∨ next.Ends results report := by
  cases h with
  | connect answer rest =>
    cases answer with
    | error e => exact Or.inl (fails_of_fail rest)
    | ok _ =>
      cases rest with
      | ping answer rest =>
        cases answer with
        | error e => exact Or.inl (fails_of_fail rest)
        | ok _ => exact Or.inr rest

/-- A command that runs a file once fails before the run, or ends with the report on it. -/
theorem ends_runOnce {config : Config} {source language : String} {input : Option String}
    {time : Option Binary64} {memory : Option UInt64} {json : Bool}
    (h : (runOnce config source language input time memory json).Ends results report) :
    Fails results report ∨ ∃ request result, Returns (withoutPools config) request result ∧
      results = [result] ∧ report = .ofRun json result := by
  obtain hfails | ⟨code, h⟩ := ends_readText h
  · exact Or.inl hfails
  obtain hfails | ⟨stdin, h⟩ := ends_readText? h
  · exact Or.inl hfails
  obtain hfails | ⟨limit, h⟩ := ends_timeLimit h
  · exact Or.inl hfails
  obtain hfails | h := ends_reach h
  · exact Or.inl hfails
  cases h with
  | run returns rest =>
    obtain ⟨rfl, rfl⟩ := ends_finish rest
    exact Or.inr ⟨_, _, returns, rfl, rfl⟩

/-- Whatever a run of a file without limits and input returns, the command comes to its end with
it. -/
theorem exists_ends {config : Config} {language code : String} {content : Bytes}
    {result : Except RunError Outcome} (source : String) (json : Bool)
    (text : Utf8.decode? content = some code)
    (returns : Returns (withoutPools config) (.ofCode language code) result) :
    ∃ report, (runOnce config source language none none none json).Ends [result] report := by
  have hrun : (readText? none "failed to read input file" fun stdin =>
      timeLimit none fun limit =>
        reach config.host (.run (withoutPools config) ⟨language, code, stdin, limit, none⟩
          fun result => .finish (.ofRun json result))).Ends [result] (.ofRun json result) :=
    .connect (.ok ()) (.ping (.ok ()) (.run returns .finish))
  refine ⟨.ofRun json result, .read (.ok content) ?_⟩
  dsimp only
  rw [text]
  exact hrun

/-- An invocation that runs a file once does so under some configuration. -/
theorem ends_ofInvocation {v : Invocation} {source language : String} {input : Option String}
    {time : Option Binary64} {memory : Option UInt64} {json : Bool}
    (command : v.command = .run source language input time memory json)
    (h : (ofInvocation v).Ends results report) :
    ∃ config, (runOnce config source language input time memory json).Ends results report := by
  simp only [ofInvocation, command, ofCommand] at h
  split at h
  · exact ⟨_, h⟩
  · cases h with
    | read answer rest => exact ⟨_, rest⟩

end Plan

/-! ### The status -/

/-- The parent sees success for the multiples of 256. -/
theorem statusOf_eq_zero {code : ℤ} : Report.statusOf code = 0 ↔ code % 256 = 0 := by
  have hnonneg : 0 ≤ code % 256 := Int.emod_nonneg _ (by decide)
  have hlt : (code % 256).toNat < 2 ^ 8 := by
    have := Int.emod_lt_of_pos code (show (0 : ℤ) < 256 by decide)
    omega
  rw [Report.statusOf, ← UInt8.toNat_inj, UInt8.toNat_ofNat_of_lt' hlt]
  simp
  omega

/-- An outcome in time has the status of its exit code, also where the code is zero. -/
theorem statusOfOutcome_eq {o : Outcome} (h : o.timedOut = false) :
    Report.statusOfOutcome o = Report.statusOf o.exitCode := by
  unfold Report.statusOfOutcome Outcome.isSuccess
  by_cases hcode : o.exitCode = 0 <;> simp [h, hcode, Report.statusOf]

theorem statusOfOutcome_timedOut {o : Outcome} (h : o.timedOut = true)
    (hcode : o.exitCode = timeoutExitCode) : Report.statusOfOutcome o = 124 := by
  unfold Report.statusOfOutcome Outcome.isSuccess
  rw [h, hcode]
  rfl

theorem status_ofRun (json : Bool) (o : Outcome) :
    (Report.ofRun json (.ok o)).status = Report.statusOfOutcome o := by
  unfold Report.ofRun Report.ofOutcome
  cases json <;> rfl

/-- **When a command that runs a file reports success.** Let the command come to its end without
being interrupted, whatever there is in the files, whatever the limits are and whatever the daemon
answers. It has status zero if and only if the run returned an outcome in time with an exit code
that is a multiple of 256: zero, but also 256. An outcome at the time limit has status 124. An
outcome in time has any exit code of 32 bits, whose last eight bits are the status. Without an
outcome the status is one. -/
theorem status_of_run {v : Invocation} {source language : String} {input : Option String}
    {time : Option Binary64} {memory : Option UInt64} {json : Bool}
    {results : List (Except RunError Outcome)} {report : Report}
    (command : v.command = .run source language input time memory json)
    (ends : (Plan.ofInvocation v).Ends results report) :
    (report.status = 0 ↔ ∃ o, results = [.ok o] ∧ o.timedOut = false ∧ o.exitCode % 256 = 0) ∧
    (∀ o, results = [.ok o] → o.timedOut = false →
      isInt32 o.exitCode = true ∧ report.status = Report.statusOf o.exitCode) ∧
    (∀ o, results = [.ok o] → o.timedOut = true → report.status = 124) ∧
    ((∀ o, results ≠ [.ok o]) → results.length ≤ 1 ∧ report.status = 1) := by
  obtain ⟨config, h⟩ := Plan.ends_ofInvocation command ends
  obtain ⟨rfl, hstatus⟩ | ⟨request, result, returns, rfl, rfl⟩ := Plan.ends_runOnce h
  · refine ⟨?_, by simp, by simp, fun _ => ⟨by simp, hstatus⟩⟩
    simp [hstatus]
  cases result with
  | error e =>
    refine ⟨?_, by simp, by simp, fun _ => ⟨by simp, rfl⟩⟩
    simp [Report.ofRun, Report.failure]
  | ok o =>
    rw [status_ofRun]
    rcases returns.outcome with ⟨htime, hcode⟩ | ⟨htime, hnarrow⟩
    · have hstatus := statusOfOutcome_timedOut htime hcode
      simp [htime, hstatus]
    · have hstatus := statusOfOutcome_eq htime
      simp [htime, hnarrow, hstatus, statusOf_eq_zero]

/-- A run whose command ends with exit code 256. -/
def exits256 : List Event :=
  [.run (.ofCode "sh" "") false, .signal 0 (.reply (.created (.ok ⟨"a"⟩))),
    .signal 0 (.reply (.done (.ok ()))), .signal 0 (.reply (.done (.ok ()))),
    .signal 0 (.reply (.opened (.ok ⟨"x"⟩))), .signal 0 (.reply .ended),
    .signal 0 (.reply (.code (.ok (some 256)))), .signal 0 (.reply (.done (.ok ())))]

theorem status_of_run_exits256 : ∃ o report,
    (Plan.ofInvocation ⟨some "one.toml", false, .run "a.sh" "sh" none none none false⟩).Ends
      [.ok o] report ∧ o.timedOut = false ∧ o.exitCode = 256 ∧ report.status = 0 := by
  have hone : ∃ cs, Config.textOfOne = String.ofList cs ∧
      Config.passes (fun c => c = Config.oneLanguage && c.firstDefect.isNone) cs = true ∧
      Config.textOf (cs.flatMap String.utf8EncodeChar) = String.ofList cs :=
    ⟨_, rfl, by decide +kernel, by decide +kernel⟩
  have hformat : Config.Format.ofPath? "one.toml" = some .toml := by decide +kernel
  have hevents : ∃ s₀ s flag o,
      Supervisor.start? (Plan.withoutPools Config.oneLanguage) 0 = some s₀ ∧ s₀.tasks = [] ∧
      s₀.after? exits256 = some s ∧ s.tasks[0]? = some (.run ⟨flag, .done (.ok o)⟩) ∧
      o.timedOut = false ∧ o.exitCode = 256 :=
    ⟨_, _, _, _, rfl, rfl, rfl, rfl, rfl, rfl⟩
  -- the configuration file
  obtain ⟨cs, -, hpasses, hcontent⟩ := hone
  obtain ⟨entries, c, hentries, hdata, htest⟩ := Config.exists_of_passes hpasses
  obtain ⟨hc, hnone⟩ := Bool.and_eq_true_iff.1 htest
  obtain rfl := of_decide_eq_true hc
  have hload : Config.loadOrBuiltin (some ("one.toml", .file (cs.flatMap String.utf8EncodeChar))) =
      Config.oneLanguage := by
    refine Config.loadOrBuiltin_of_ok ?_
    simp only [Config.ofFile, hformat, hcontent, Config.ofText_eq_ok.2
      ⟨entries, hentries, hdata, Option.isNone_iff_eq_none.1 hnone⟩]
  -- the run
  obtain ⟨s₀, s, flag, o, start, hnil, after, outcome, htime, hcode⟩ := hevents
  have returns : Returns (Plan.withoutPools Config.oneLanguage) (.ofCode "sh" "") (.ok o) := by
    refine ⟨0, s₀, s₀, s, [], exits256.tail, flag, start, Supervisor.after?_nil s₀, after, ?_⟩
    refine ⟨?_, ?_, ?_⟩
    · simp [exits256]
    · simp [exits256]
    · rw [hnil]
      exact outcome
  obtain ⟨report, hends⟩ := Plan.exists_ends "a.sh" false
    (show Utf8.decode? [] = some "" from rfl) returns
  have ends : (Plan.ofInvocation
      ⟨some "one.toml", false, .run "a.sh" "sh" none none none false⟩).Ends [.ok o] report := by
    refine .read (.ok (cs.flatMap String.utf8EncodeChar)) ?_
    rw [Plan.nodeOf, hload]
    exact hends
  obtain ⟨hzero, -⟩ := status_of_run rfl ends
  exact ⟨o, report, ends, htime, hcode, hzero.2 ⟨o, rfl, htime, by rw [hcode]; rfl⟩⟩

end CommandLine

end Isolate
