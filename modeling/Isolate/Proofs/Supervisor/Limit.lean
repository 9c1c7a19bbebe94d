import Isolate.Proofs.Supervisor.Phases

/-!
# The time limit

The clock of a command starts before the engine is asked to open it, but the time limit is looked at
only from the moment on at which it is open. So the limit binds exactly if the command is opened
before it is over; otherwise the command is let go the moment it is opened.

* `after?_eq_some`, `since_lt`, `le_since`: time limits and the time between two moments;
* `Concluded.outcome`: an outcome comes at the end of the output or at the time limit;
* `limit_of_run`: what the time limit of a run does.
-/

namespace Isolate

namespace Instant

variable {t m now : ℕ} {d : Duration}

theorem after?_eq_some (h : Instant.after? t d = some m) :
    m = Instant.after t d ∧ t * nanosPerMilli + d.nanos < horizon := by
  unfold Instant.after? at h
  split_ifs at h with hfits
  exact ⟨(Option.some.inj h).symm, hfits⟩

/-- Up to the end of a time limit no more than the limit has gone by, rounded up to a moment. -/
theorem since_lt (h : Instant.after? t d = some m) (hnow : now ≤ m) :
    (Instant.since t now).nanos < d.nanos + nanosPerMilli := by
  obtain ⟨rfl, _⟩ := after?_eq_some h
  simp only [Instant.since, Instant.after, nanosPerMilli] at hnow ⊢
  omega

/-- After the end of a time limit more than the limit has gone by. -/
theorem le_since (h : Instant.after? t d = some m) (hnow : m < now) :
    d.nanos + nanosPerMilli ≤ (Instant.since t now).nanos := by
  obtain ⟨rfl, hfits⟩ := after?_eq_some h
  simp only [Instant.since, Instant.after, horizon, bound63, nanosPerMilli, nanosPerSecond,
    Duration.max] at hnow hfits ⊢
  omega

end Instant

namespace Run

variable {job : Job} {archive : Bytes} {id : ContainerId} {ts : List Told} {asked : List Call}
  {now : Instant} {o : Outcome}

/-- **An outcome comes at the end of the output or at the time limit,** and shows the time that went
by until then. -/
theorem Concluded.outcome (h : Concluded job archive id ts asked now (.ok o)) :
    ∃ (S : Session job) (t : Told) (rest : List Told), ts = S.told ++ t :: rest ∧
      S.InTime t.now ∧ o.timeUsed = S.unpacked.now.since t.now ∧
      (o.timedOut = false ∧ t.signal = .reply .ended ∨
        o.timedOut = true ∧ t.signal = .timer ∧ S.deadline.map (max S.opened.now) = some t.now) := by
  cases h with
  | @timedOut S t d limited now timer wanted =>
    refine ⟨S, t, [], rfl, ⟨now ▸ le_max_left _ _, fun d' hd' => ?_⟩, rfl,
      Or.inr ⟨rfl, timer, by rw [limited, now]; rfl⟩⟩
    obtain rfl : d = d' := Option.some.inj (limited.symm.trans hd')
    exact now.le
  | @exited Q t code answer narrow =>
    refine ⟨Q.toSession, Q.last, Q.retries.flatMap (fun p => [p.1, p.2]) ++ [t], ?_, Q.inTime,
      rfl, Or.inl ⟨rfl, Q.ends.answer⟩⟩
    simp [Inquiry.told]

/-- The time limit binds exactly if the command is opened before it is over. -/
theorem Session.limit (S : Session job) {d : Instant} (limited : S.deadline = some d)
    (h : S.InTime now) :
    (S.opened.now ≤ d → now ≤ d ∧
        (S.unpacked.now.since now).nanos < job.timeLimit.nanos + nanosPerMilli) ∧
      (d < S.opened.now → now = S.opened.now ∧
        job.timeLimit.nanos + nanosPerMilli ≤ (S.unpacked.now.since now).nanos) := by
  have hafter := S.limited.symm.trans limited
  obtain ⟨hopened, hlast⟩ := h
  constructor
  · intro hle
    have hnow : now ≤ d := (hlast d limited).trans (max_le hle (le_refl _))
    exact ⟨hnow, Instant.since_lt hafter hnow⟩
  · intro hlt
    have hnow : now = S.opened.now :=
      le_antisymm ((hlast d limited).trans (max_le (le_refl _) hlt.le)) hopened
    exact ⟨hnow, Instant.le_since hafter (hnow ▸ hlt)⟩

/-- Only a run that got a container and used it has an outcome. -/
theorem Course.outcome {begun : Instant} {stamp : ℕ} {idle : Option ContainerId}
    (h : Course job begun stamp idle ts asked now (.done (.ok o))) :
    ∃ before us archive id now' asked' t, ts = before ++ us ++ [t] ∧
      Concluded job archive id us asked' now' (.ok o) := by
  cases h with
  | underway acquired packs underway => cases underway
  | @done before us _ _ id _ _ now t _ acquired used gone =>
    cases used with
    | @packed archive _ _ _ _ packs concluded =>
      exact ⟨before, us, archive, id, now, _, t, rfl, concluded⟩

end Run

namespace Supervisor

variable {c : Config} {epoch : ℕ} {s₀ b s : Supervisor} {pre post : List Event}
  {request : Request} {cancelled flag : Bool} {job : Job} {o : Outcome}

/-- **What the time limit does.** Let a run that nobody drops come to an outcome. Its time is that
from the end of the upload, when the clock was started, to the signal at which it was decided: the
end of the output, or the time limit. If the clock can show the end of the limit and the command was
open by then, that signal came no later and the time is at most the limit, rounded up to a moment.
If the command was opened later, the signal came at the moment at which it was opened, and the time
is greater than the limit; whether the run counts as timed out is then left to which of the two
comes first at that moment. -/
theorem limit_of_run (start : start? c epoch = some s₀) (before : s₀.after? pre = some b)
    (after : s₀.after? (pre ++ .run request cancelled :: post) = some s)
    (kept : Event.drop b.tasks.length ∉ post) (known : c.job? request = some job)
    (outcome : s.tasks[b.tasks.length]? = some (.run ⟨flag, .done (.ok o)⟩)) :
    ∃ (S : Run.Session job) (t : Told) (earlier later : List Told),
      heard b.tasks.length cancelled (b.beginRun request cancelled) post =
        earlier ++ S.told ++ t :: later ∧
      o.timeUsed = S.unpacked.now.since t.now ∧
      (o.timedOut = false ∧ t.signal = .reply .ended ∨
        o.timedOut = true ∧ t.signal = .timer ∧
          (S.unpacked.now.after? job.timeLimit).map (max S.opened.now) = some t.now) ∧
      ∀ d, S.unpacked.now.after? job.timeLimit = some d →
        (S.opened.now ≤ d →
          t.now ≤ d ∧ o.timeUsed.nanos < job.timeLimit.nanos + nanosPerMilli) ∧
        (d < S.opened.now →
          t.now = S.opened.now ∧ job.timeLimit.nanos + nanosPerMilli ≤ o.timeUsed.nanos) := by
  obtain ⟨_, _, now, found, _, _, course⟩ := course_of_run start before after kept known
  obtain ⟨rfl, rfl⟩ : _ = flag ∧ _ = Run.Stage.done (.ok o) := by simpa [outcome] using found.symm
  obtain ⟨earlier, us, _, _, _, _, last, hts, concluded⟩ := course.outcome
  obtain ⟨S, t, rest, rfl, inTime, hused, hwhich⟩ := concluded.outcome
  refine ⟨S, t, earlier, rest ++ [last], by rw [hts]; simp, hused, S.limited ▸ hwhich,
    fun d hd => ?_⟩
  rw [hused]
  exact S.limit (S.limited.trans hd) inTime

/-- A request that may take a tenth of a second. -/
def brief : Request := { Request.ofCode "sh" "true" with time := some (.ofMillis 100) }

/-- The command is opened three tenths of a second after its files were uploaded, and ends at
once. -/
def lateOpening : List Event :=
  [.signal 0 (.reply (.created (.ok ⟨"a"⟩))), .signal 0 (.reply (.done (.ok ()))),
    .signal 0 (.reply (.done (.ok ()))), .advance 300, .signal 0 (.reply (.opened (.ok ⟨"x"⟩))),
    .signal 0 (.reply .ended), .signal 0 (.reply (.code (.ok (some 0)))),
    .signal 0 (.reply (.done (.ok ())))]

theorem limit_of_run_lateOpening : ∃ s₀ s flag o, ∃ job : Job,
    start? { Config.small with pool := { size := 0 } } 0 = some s₀ ∧
    s₀.after? (.run brief false :: lateOpening) = some s ∧
    s.tasks[0]? = some (.run ⟨flag, .done (.ok o)⟩) ∧ o.timedOut = false ∧
    job.timeLimit = .ofMillis 100 ∧ o.timeUsed = .ofMillis 300 ∧
    ∃ (S : Run.Session job) (t : Told), t.signal = .reply .ended ∧
      ∀ d, S.unpacked.now.after? job.timeLimit = some d → d < S.opened.now := by
  have hs : ∃ s₀ s flag o job, start? { Config.small with pool := { size := 0 } } 0 = some s₀ ∧
      s₀.after? [] = some s₀ ∧ s₀.tasks.length = 0 ∧
      s₀.after? (.run brief false :: lateOpening) = some s ∧
      Config.job? { Config.small with pool := { size := 0 } } brief = some job ∧
      s.tasks[0]? = some (.run ⟨flag, .done (.ok o)⟩) ∧ o.timedOut = false ∧
      job.timeLimit = .ofMillis 100 ∧ o.timeUsed = .ofMillis 300 :=
    ⟨_, _, _, _, _, rfl, rfl, rfl, rfl, rfl, rfl, rfl, rfl, by decide +kernel⟩
  obtain ⟨s₀, s, flag, o, job, start, before, first, after, known, outcome, intime, limit, used⟩ :=
    hs
  have kept : Event.drop s₀.tasks.length ∉ lateOpening := by simp [lateOpening]
  obtain ⟨S, t, _, _, _, _, hwhich, hlimit⟩ :=
    limit_of_run start before after kept known (first ▸ outcome)
  refine ⟨s₀, s, flag, o, job, start, after, outcome, intime, limit, used, S, t, ?_, fun d hd => ?_⟩
  · rcases hwhich with ⟨_, ended⟩ | ⟨timedOut, _⟩
    · exact ended
    · rw [intime] at timedOut
      cases timedOut
  · by_contra hopened
    have hshort := ((hlimit d hd).1 (Nat.not_lt.1 hopened)).2
    rw [limit, used] at hshort
    revert hshort
    decide

end Supervisor

end Isolate
