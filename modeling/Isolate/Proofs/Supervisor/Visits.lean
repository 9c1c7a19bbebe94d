import Isolate.Proofs.Archive.Stamps
import Isolate.Proofs.Run.Trace
import Isolate.Proofs.Supervisor.Phases

/-!
# Runs that cannot be told apart

What becomes of a run that has its container depends on its job and on what the engine and its
caller do from then on. Where the container came from, what is in the pools, what other runs do and
what the clock shows has no influence.

* `Config.Alike`: configurations that run submissions in the same way;
* `Visit`, `exists_visit`: a run that got a container and came to its end;
* `Visit.trace`: what it was told and what it asked since it had the container;
* `Call.Alike`, `runs_alike`: two visits with the same service end alike and ask the same.
-/

namespace Isolate

/-- The configurations have the same profiles, the same limit for output and the same fallback for
the time limit. -/
structure Config.Alike (c c' : Config) : Prop where
  profiles : ∀ language, c.profile? language = c'.profile? language
  output : c.maxOutput = c'.maxOutput
  fallback : c.fallbackLimit = c'.fallbackLimit

theorem Config.Alike.job? {c c' : Config} (alike : c.Alike c') (request : Request) :
    c.job? request = c'.job? request := by
  simp only [Config.job?, Config.timeLimit, alike.profiles, alike.output, alike.fallback]

/-- The same call, made about either of two containers; archives may differ in their time stamps. -/
inductive Call.Alike (id id' : ContainerId) : Call → Call → Prop
  | within (call : Call) : Alike id id' (call.within id) (call.within id')
  | upload (dir : String) {a a' : Bytes} (same : Archive.SameButTime a a') :
      Alike id id' (.upload id dir a) (.upload id' dir a')

theorem Call.alike_within (id id' : ContainerId) (cs : List Call) :
    List.Forall₂ (Call.Alike id id') (cs.map (Call.within id)) (cs.map (Call.within id')) := by
  induction cs with
  | nil => exact .nil
  | cons c cs ih => exact .cons (.within c) ih

namespace Supervisor

/-- A run of a request in a supervisor, with anything else going on before and meanwhile, that gets
a container and comes to its end. -/
structure Visit (c : Config) (request : Request) where
  epoch : ℕ
  first : Supervisor
  pre : List Event
  begun : Supervisor
  cancelled : Bool
  post : List Event
  last : Supervisor
  start : start? c epoch = some first
  before : first.after? pre = some begun
  after : first.after? (pre ++ .run request cancelled :: post) = some last
  kept : Event.drop begun.tasks.length ∉ post
  job : Job
  known : c.job? request = some job
  /-- What the run is told before it has its container. -/
  earlier : List Told
  /-- What it is told from then on. -/
  told : List Told
  /-- The container is gone, or given up. -/
  gone : Told
  heard : heard begun.tasks.length cancelled (begun.beginRun request cancelled) post =
    earlier ++ (told ++ [gone])
  /-- The calls that provide the container. -/
  asked : List Call
  id : ContainerId
  got : Instant
  stamp : ℕ
  acquired : Run.Acquired job begun.now begun.stamp (begun.idleFor job) earlier asked id got stamp
  flag : Bool
  result : Execution.Result
  returned : last.tasks[begun.tasks.length]? = some (.run ⟨flag, .done result⟩)

namespace Visit

variable {c c' : Config} {request : Request}

/-- What the run asks the engine about its container once it has it. -/
def calls (v : Visit c request) : List Call :=
  (v.last.askedBy v.begun.tasks.length).drop v.asked.length

/-- A run goes from the first stage of its job from signal to signal. -/
theorem trace (v : Visit c request) : ∃ now later,
    Run.Trace v.got (Run.acquired v.got v.stamp v.job v.id) (v.told ++ [v.gone]) later now
        (.done v.result) ∧
      v.calls = (Run.acquired v.got v.stamp v.job v.id).call?.toList ++ later := by
  have follows : ∃ flag, Follows (fun ts asked now stage => ∃ later,
      asked = (Run.begin v.begun.now v.begun.stamp v.job (v.begun.idleFor v.job)).call?.toList ++
        later ∧
      Run.Trace v.begun.now (Run.begin v.begun.now v.begun.stamp v.job (v.begun.idleFor v.job)) ts
        later now stage) v.last v.begun.tasks.length flag
      (Supervisor.heard v.begun.tasks.length v.cancelled (v.begun.beginRun request v.cancelled)
        v.post) := by
    refine follows_run v.start v.before v.after v.kept ?_ ?_
    · rintro ts asked now t stage stage' ⟨later, rfl, trace⟩ hle hwakes hstep
      exact ⟨_, List.append_assoc _ _ _, trace.concat hle hwakes hstep⟩
    · intro indexed config
      have known := (congrArg (fun c => c.job? request) config).trans v.known
      exact follows_begin indexed known ⟨[], (List.append_nil _).symm, .refl _ _⟩
  obtain ⟨_, _, now, found, _, _, later, hasked, trace⟩ := follows
  obtain ⟨rfl, rfl⟩ : _ = v.flag ∧ _ = Run.Stage.done v.result := by
    simpa [v.returned] using found.symm
  rw [v.heard] at trace
  obtain ⟨later', hcalls, trace'⟩ := trace.of_acquired v.acquired
  refine ⟨now, later', trace', ?_⟩
  rw [calls, hasked, hcalls, List.drop_left]

end Visit

/-- A run that came to its end had a container, unless it could not provide one. -/
theorem acquired_of_course {job : Job} {begun now : Instant} {stamp : ℕ}
    {idle : Option ContainerId} {ts : List Told} {asked : List Call} {result : Execution.Result}
    (course : Run.Course job begun stamp idle ts asked now (.done result))
    (provided : ∀ e, result ≠ .error (.provision e)) :
    ∃ earlier told gone before id got stamp', ts = earlier ++ (told ++ [gone]) ∧
      Run.Acquired job begun stamp idle earlier before id got stamp' := by
  cases course with
  | notCreated _ _ => exact (provided _ rfl).elim
  | notStarted _ _ _ _ => exact (provided _ rfl).elim
  | underway _ _ underway => cases underway
  | done acquired used gone => exact ⟨_, _, _, _, _, _, _, List.append_assoc _ _ _, acquired⟩

/-- Every run that nobody drops and that comes to an end with a container is a visit. -/
theorem exists_visit {c : Config} {epoch : ℕ} {s₀ b s : Supervisor} {pre post : List Event}
    {request : Request} {cancelled flag : Bool} {job : Job} {result : Execution.Result}
    (start : start? c epoch = some s₀) (before : s₀.after? pre = some b)
    (after : s₀.after? (pre ++ .run request cancelled :: post) = some s)
    (kept : Event.drop b.tasks.length ∉ post) (known : c.job? request = some job)
    (returned : s.tasks[b.tasks.length]? = some (.run ⟨flag, .done result⟩))
    (provided : ∀ e, result ≠ .error (.provision e)) :
    ∃ v : Visit c request, v.begun = b ∧ v.last = s ∧ v.result = result := by
  obtain ⟨_, _, now, found, _, _, course⟩ := course_of_run start before after kept known
  obtain ⟨rfl, rfl⟩ : _ = flag ∧ _ = Run.Stage.done result := by simpa [returned] using found.symm
  obtain ⟨earlier, told, gone, asked, id, got, stamp, hheard, acquired⟩ :=
    acquired_of_course course provided
  exact ⟨⟨epoch, s₀, pre, b, cancelled, post, s, start, before, after, kept, job, known, earlier,
    told, gone, hheard, asked, id, got, stamp, acquired, _, result, returned⟩, rfl, rfl, rfl⟩

/-- **Runs cannot be told apart** by where their containers come from. Let a request be run twice,
in supervisors whose configurations agree on what concerns a run; the pools, the time of day, all
other events and the provision of the container may differ. If the engine and the caller do the same
to both runs from the start of the execution on, and the time limit fits both clocks or neither,
then the runs have the same result and have asked for the same, each about its own container: the
uploaded archives differ in nothing but their time stamps. -/
theorem runs_alike {c c' : Config} {request : Request} (alike : c.Alike c') (v : Visit c request)
    (v' : Visit c' request) (E : Service) (serves : E.Serves v.told) (serves' : E.Serves v'.told)
    (clear : E.Clear v.job.timeLimit) (clock : Run.fits v.job v.told = Run.fits v'.job v'.told) :
    v.result = v'.result ∧ List.Forall₂ (Call.Alike v.id v'.id) v.calls v'.calls := by
  have hjob : v'.job = v.job :=
    Option.some.inj (v'.known.symm.trans ((alike.job? request).symm.trans v.known))
  obtain ⟨_, later, trace, hcalls⟩ := v.trace
  obtain ⟨_, later', trace', hcalls'⟩ := v'.trace
  rw [hcalls, hcalls']
  rw [hjob] at trace' clock ⊢
  rcases Archive.pack_stamps v.stamp v'.stamp v.job.files with ⟨a, a', h, h', same⟩ | ⟨e, h, h'⟩
  · rw [Run.acquired_of_ok h] at trace ⊢
    rw [Run.acquired_of_ok h'] at trace' ⊢
    have ends' := Run.ends_of_trace trace' serves'
    rw [← clock] at ends'
    obtain ⟨hresult, cs, rfl, rfl⟩ :=
      Run.ends_unique clear (Run.ends_of_trace trace serves) ends'
    exact ⟨hresult, .cons (.upload _ same) (Call.alike_within _ _ cs)⟩
  · rw [Run.acquired_of_error h] at trace ⊢
    rw [Run.acquired_of_error h'] at trace' ⊢
    obtain ⟨hresult, rfl, -⟩ := trace.of_release
    obtain ⟨hresult', rfl, -⟩ := trace'.of_release
    exact ⟨hresult.trans hresult'.symm, .cons (.within (.remove v.id)) .nil⟩

/-- What an engine does for a short program that writes a letter, and a caller that loses patience
later. -/
def shortService : Service where
  upload := .ok ()
  answers := [(10, .opened (.ok ⟨"x"⟩)), (20, .output (.ok (.stdout [97]))), (50, .ended),
    (50, .code (.ok (some 0)))]
  cancel := some 60

/-- The signals of that service to a run at place `k` whose execution starts at a moment. -/
def shortRun (k : ℕ) (start : Instant) : List Event :=
  [.signal k (.reply (.done (.ok ()))), .advance (start + 10),
    .signal k (.reply (.opened (.ok ⟨"x"⟩))), .advance (start + 20),
    .signal k (.reply (.output (.ok (.stdout [97])))), .advance (start + 50),
    .signal k (.reply .ended), .signal k (.reply (.code (.ok (some 0)))),
    .signal k (.reply (.done (.ok ())))]

/-- What a run is told by that service. -/
def shortTold (start : Instant) (stamp : ℕ) : List Told :=
  [⟨start, stamp, false, .reply (.done (.ok ()))⟩,
    ⟨start + 10, stamp, false, .reply (.opened (.ok ⟨"x"⟩))⟩,
    ⟨start + 20, stamp, false, .reply (.output (.ok (.stdout [97])))⟩,
    ⟨start + 50, stamp, false, .reply .ended⟩,
    ⟨start + 50, stamp, false, .reply (.code (.ok (some 0)))⟩]

theorem serves_shortTold (start : Instant) (stamp : ℕ) :
    shortService.Serves (shortTold start stamp) := by
  have wanted (moment : ℕ) (h : moment ≤ 50) : ∀ c ∈ shortService.cancel, (moment : ℤ) ≤ c := by
    rintro c ⟨⟩
    omega
  rintro u ⟨⟩
  exact ⟨⟨0, rfl, Service.brings_answer (wanted 0 (by decide))⟩,
    ⟨10, rfl, Service.brings_answer (wanted 10 (by decide))⟩,
    ⟨20, rfl, Service.brings_answer (wanted 20 (by decide))⟩,
    ⟨50, rfl, Service.brings_answer (wanted 50 (by decide))⟩,
    ⟨50, rfl, Service.brings_answer (wanted 50 (by decide))⟩, trivial⟩

/-- A run with a container from a pool. -/
theorem exists_warm : ∃ v : Visit .small (.ofCode "sh" "true"),
    v.told = shortTold 100 0 ∧ v.id = ⟨"a"⟩ ∧ v.job.timeLimit = .ofMillis 5000 := by
  refine ⟨⟨0, _, oneLife.take 7, _, false, shortRun 1 100, _, rfl, rfl, rfl, ?_, _, rfl, [],
    shortTold 100 0, ⟨150, 0, false, .reply (.done (.ok ()))⟩, rfl, [], ⟨"a"⟩, 100, 0, .taken,
    false, _, rfl⟩, rfl, rfl, ?_⟩
  · simp [shortRun]
  · decide +kernel

/-- A run that provides its own container, as there are no pools. -/
theorem exists_cold : ∃ v : Visit { Config.small with pool := { size := 0 } } (.ofCode "sh" "true"),
    v.told = shortTold 9 7 ∧ v.id = ⟨"b"⟩ ∧ v.job.timeLimit = .ofMillis 5000 := by
  refine ⟨⟨7, _, [.advance 3], _, false, .signal 0 (.reply (.created (.ok ⟨"b"⟩))) :: .advance 5 ::
    .signal 0 (.reply (.done (.ok ()))) :: .advance 9 :: shortRun 0 9, _, rfl, rfl, rfl, ?_, _, rfl,
    [⟨3, 7, false, .reply (.created (.ok ⟨"b"⟩))⟩, ⟨5, 7, false, .reply (.done (.ok ()))⟩],
    shortTold 9 7, ⟨59, 7, false, .reply (.done (.ok ()))⟩, rfl, _, ⟨"b"⟩, 5, 7,
    .provided rfl rfl, false, _, rfl⟩, rfl, rfl, ?_⟩
  · simp [shortRun]
  · decide +kernel

theorem runs_alike_short : ∃ (v : Visit .small (.ofCode "sh" "true"))
    (v' : Visit { Config.small with pool := { size := 0 } } (.ofCode "sh" "true")),
    v.id = ⟨"a"⟩ ∧ v'.id = ⟨"b"⟩ ∧ shortService.Serves v.told ∧ shortService.Serves v'.told ∧
      v.result = v'.result ∧ List.Forall₂ (Call.Alike v.id v'.id) v.calls v'.calls := by
  obtain ⟨v, told, id, limit⟩ := exists_warm
  obtain ⟨v', told', id', limit'⟩ := exists_cold
  have serves : shortService.Serves v.told := told ▸ serves_shortTold 100 0
  have serves' : shortService.Serves v'.told := told' ▸ serves_shortTold 9 7
  have clear : shortService.Clear v.job.timeLimit := by
    rw [limit]
    constructor
    · rintro c ⟨⟩
      decide +kernel
    · rintro c ⟨⟩
      decide +kernel
  have clock : Run.fits v.job v.told = Run.fits v'.job v'.told := by
    simp only [Run.fits, told, told', limit, limit']
    decide +kernel
  have alike : Config.small.Alike { Config.small with pool := { size := 0 } } :=
    ⟨fun _ => rfl, rfl, rfl⟩
  exact ⟨v, v', id, id', serves, serves',
    runs_alike alike v v' shortService serves serves' clear clock⟩

end Supervisor

end Isolate
