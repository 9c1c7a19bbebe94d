import Isolate.Proofs.Archive.Delivery
import Isolate.Proofs.Shell.Quoting
import Isolate.Proofs.Supervisor.Exclusivity
import Isolate.Proofs.Supervisor.Phases

/-!
# The command of a run and the files it was given

What is uploaded, what is executed and the container itself are put together apart from each other,
from the same job. Whenever a run asks for its command, the three fit together.

* `moment_of_call`, `notMem_of_run`: the moment of a call, up to which nobody has dropped its run;
* `Run.Course.of_exec`: what a run has asked by the time it asks for its command;
* `Archive.entries_of_plain`: files with plain names are read back as they are;
* `Matches`, `matches_of_pack`: an archive and a command that belong together;
* `upload_before_exec`: what a run has done when it asks for its command;
* `command_matches_files`: the command of a run and what its container was given before.
-/

namespace Isolate

/-! ### The moment of a call -/

namespace Supervisor

variable {s s' s₀ b : Supervisor} {e : Event} {es : List Event} {k : ℕ} {call : Call}

/-- What is over stays over. -/
theorem over_of_step (h : s.step e = some s') (hover : s.tasks[k]? = some .over) :
    s'.tasks[k]? = some .over := by
  have hlt : k < s.tasks.length := (List.getElem?_eq_some_iff.1 hover).1
  cases (moves_of_step h).1 with
  | aside _ tasks _ _ _ => rwa [tasks]
  | spawn _ tasks _ _ => rwa [tasks, List.getElem?_append_left hlt]
  | @cancel j r found tasks _ _ =>
    have hj : j ≠ k := by
      rintro rfl
      rw [hover] at found
      cases found
    rwa [tasks, List.getElem?_set_ne hj]
  | @signal j sig t t' found _ tasks _ _ =>
    have hj : j ≠ k := by
      rintro rfl
      simp [step, hover, stepTask] at h
    rwa [tasks, List.getElem?_set_ne hj]
  | @drop j more tasks _ _ _ =>
    rw [tasks, List.getElem?_append_left (by rwa [List.length_set])]
    by_cases hj : j = k
    · subst hj
      exact List.getElem?_set_self hlt
    · rwa [List.getElem?_set_ne hj]

/-- A run that is still there was not dropped. -/
theorem notMem_of_run {r : Run} (after : b.after? es = some s)
    (found : s.tasks[k]? = some (.run r)) : Event.drop k ∉ es := by
  intro hmem
  obtain ⟨es₁, es₂, rfl⟩ := List.append_of_mem hmem
  rw [after?_append] at after
  obtain ⟨s₁, -, hrest⟩ := Option.bind_eq_some_iff.1 after
  rw [after?_cons] at hrest
  obtain ⟨s₂, hdrop, hafter⟩ := Option.bind_eq_some_iff.1 hrest
  have hover : s₂.tasks[k]? = some .over := by
    have hlt : k < s₁.tasks.length := by
      by_contra hge
      simp [step, List.getElem?_eq_none (Nat.le_of_not_lt hge)] at hdrop
    cases (moves_of_step hdrop).1 with
    | aside aside _ _ _ _ => cases aside
    | spawn aside _ _ _ => cases aside
    | drop tasks _ _ _ =>
      rw [tasks, List.getElem?_append_left (by rwa [List.length_set])]
      exact List.getElem?_set_self hlt
  have hend := after?_preserves (P := fun s => s.tasks[k]? = some .over)
    (fun hs hstep => over_of_step hstep hs) hover hafter
  rw [found] at hend
  cases hend

/-- An event makes one call at most, and the task that makes it comes into its state by it. -/
theorem calls_of_step (h : s.step e = some s') :
    s'.calls = s.calls ∨ ∃ k t call, s'.calls = (k, call) :: s.calls ∧
      s'.tasks[k]? = some t ∧ t.call? = some call := by
  have made : ∀ {k t}, s'.calls = callsOf k t ++ s.calls → s'.tasks[k]? = some t →
      s'.calls = s.calls ∨ ∃ k t call, s'.calls = (k, call) :: s.calls ∧
        s'.tasks[k]? = some t ∧ t.call? = some call := by
    intro k t calls found
    rw [calls, callsOf]
    cases hcall : t.call? with
    | none => exact Or.inl rfl
    | some call => exact Or.inr ⟨k, t, call, rfl, found, hcall⟩
  cases (moves_of_step h).1 with
  | aside _ _ calls _ _ => exact Or.inl calls
  | spawn _ tasks calls _ => exact made calls (by rw [tasks, List.getElem?_concat_length])
  | cancel _ _ calls _ => exact Or.inl calls
  | signal found _ tasks calls _ =>
    have hlt := (List.getElem?_eq_some_iff.1 found).1
    exact made calls (by rw [tasks, List.getElem?_set_self hlt])
  | @drop k more tasks calls one _ =>
    cases more with
    | nil => exact Or.inl calls
    | cons t more =>
      obtain rfl := List.length_eq_zero_iff.1 (Nat.le_zero.1 (Nat.le_of_succ_le_succ one))
      rw [List.flatMap_singleton] at calls
      exact made calls (by rw [tasks, ← List.length_set, List.getElem?_concat_length])

/-- **A call was made at a moment**: then it was the last one, and its task was in the state that it
is made on the way into. -/
theorem moment_of_call {newer older : List (ℕ × Call)} (after : b.after? es = some s)
    (made : s.calls = newer ++ (k, call) :: older) (unmade : (k, call) ∉ b.calls) :
    ∃ mid s₁ t, mid <+: es ∧ b.after? mid = some s₁ ∧ s₁.calls = (k, call) :: older ∧
      s₁.tasks[k]? = some t ∧ t.call? = some call := by
  induction es using List.reverseRecOn generalizing s newer with
  | nil =>
    cases after
    exact absurd (by simp [made]) unmade
  | append_singleton es e ih =>
    obtain ⟨s₁, hafter, hstep⟩ := after?_concat_eq_some.1 after
    have earlier : ∀ {newer}, s₁.calls = newer ++ (k, call) :: older →
        ∃ mid s₁ t, mid <+: es ++ [e] ∧ b.after? mid = some s₁ ∧
          s₁.calls = (k, call) :: older ∧ s₁.tasks[k]? = some t ∧ t.call? = some call := by
      intro newer h
      obtain ⟨mid, s₂, t, hmid, rest⟩ := ih hafter h
      exact ⟨mid, s₂, t, hmid.trans (List.prefix_append _ _), rest⟩
    rcases calls_of_step hstep with hsame | ⟨j, t, c, hcons, found, hcall⟩
    · exact earlier (hsame ▸ made)
    · rw [hcons] at made
      cases newer with
      | nil =>
        cases made
        exact ⟨es ++ [e], s, t, List.prefix_refl _, after, hcons, found, hcall⟩
      | cons n newer =>
        rw [List.cons_append] at made
        exact earlier (List.cons.inj made).2

end Supervisor

/-! ### What a run has asked before its command -/

/-- By the time a run asks for its command, it has uploaded the archive of its files to the same
container, and nothing else was done there. -/
theorem Run.Course.of_exec {job : Job} {begun now : Instant} {stamp : ℕ}
    {idle : Option ContainerId} {ts : List Told} {asked : List Call} {stage : Run.Stage}
    {id : ContainerId} {argv : List String} (h : Course job begun stamp idle ts asked now stage)
    (hcall : stage.call? = some (.exec id argv)) :
    ∃ stamp' archive earlier, Archive.pack stamp' job.files = .ok archive ∧ argv = job.argv ∧
      asked = earlier ++ [.upload id workingDir archive, .exec id argv] ∧
      ∀ c ∈ earlier, c.used? = none := by
  cases h with
  | underway acquired packs underway =>
    have unused : ∀ {got id stamp' ts before},
        Acquired job begun stamp idle ts before id got stamp' → ∀ c ∈ before, c.used? = none := by
      intro got id stamp' ts before h
      cases h with
      | taken => simp
      | provided => simp [Call.used?]
    cases underway with
    | opening =>
      cases hcall
      exact ⟨_, _, _, packs, rfl, rfl, unused acquired⟩
    | _ => cases hcall
  | _ => cases hcall

/-! ### Archives of files with plain names -/

namespace Archive

/-- Files with plain names are read back as they are. -/
theorem entries_of_plain {stamp : ℕ} {fs : List File} {archive : Bytes}
    (storable : ∀ f ∈ fs, f.Storable) (plain : ∀ f ∈ fs, Plain f.name.toList)
    (h : pack stamp fs = .ok archive) :
    (files archive).map (fun r => (r.1, r.2.data)) =
      fs.map fun f => (Utf8.encode f.name, f.data) := by
  have hreturned := returned_pack storable h
  generalize files archive = rs at hreturned ⊢
  clear storable h
  induction hreturned with
  | nil => rfl
  | cons returned _ ih =>
    rw [List.map_cons, List.map_cons, returned.of_plain (plain _ List.mem_cons_self),
      ih fun f hf => plain f (List.mem_cons_of_mem _ hf)]

/-- The names of the files in an archive. -/
def names (archive : Bytes) : List Bytes := (files archive).map (·.1)

end Archive

/-! ### Commands for archives -/

/-- An archive and a command that belong together for a request: the source file with the code, then
the input file with the input if the request has any, and a shell script that reads from the input
file, in the step that runs, if and only if that file is there. The step that compiles comes first,
if and only if the profile has one. -/
structure Matches (profile : Profile) (request : Request) (archive : Bytes) (argv : List String) :
    Prop where
  entries : (Archive.files archive).map (fun r => (r.1, r.2.data)) =
    (Utf8.encode profile.sourceFile.name, Utf8.encode request.code) ::
      (request.input.map fun input => (Utf8.encode inputFileName, Utf8.encode input)).toList
  input : Utf8.encode inputFileName ∈ Archive.names archive ↔
    ∃ input, request.stdin = some input ∧ input ≠ ""
  script : ∃ script ts, argv = ["/bin/sh", "-c", script] ∧ Shell.tokens? script = some ts ∧
    ∃ compiles runs, ts.map Shell.Token.lexeme = compiles ++ runs ∧
      compiles = profile.compile.elim [] (fun args => args.map .word ++ [.operator .and]) ∧
      runs = profile.run.map .word ++
        if Utf8.encode inputFileName ∈ Archive.names archive
          then [.operator .less, .word inputFileName] else []

theorem input_eq_some {request : Request} {input : String} :
    request.input = some input ↔ request.stdin = some input ∧ input ≠ "" := by
  simp [Request.input, Option.filter_eq_some_iff]

/-- **The files of a job, packed, and its command belong together.** -/
theorem matches_of_pack {job : Job} {stamp : ℕ} {archive : Bytes}
    (storable : ∀ f ∈ job.files, f.Storable) (packs : Archive.pack stamp job.files = .ok archive) :
    Matches job.profile job.request archive job.argv := by
  have plain : ∀ f ∈ job.files, Archive.Plain f.name.toList := by
    intro f hf
    rcases List.mem_cons.1 hf with rfl | hf
    · exact Archive.plain_sourceFile job.profile.sourceFile
    · obtain ⟨input, -, rfl⟩ := Option.map_eq_some_iff.1 (Option.mem_toList.1 hf)
      exact Archive.plain_inputFileName
  have entries := Archive.entries_of_plain storable plain packs
  have hnames : Archive.names archive = job.files.map fun f => Utf8.encode f.name := by
    have := congrArg (List.map Prod.fst) entries
    simpa [Archive.names, Function.comp_def] using this
  -- the source file is not called like the input file
  have hinput : Utf8.encode inputFileName ∈ Archive.names archive ↔
      job.request.input.isSome = true := by
    have hsource : Utf8.encode inputFileName ≠ Utf8.encode job.profile.sourceFile.name :=
      fun h => Archive.ne_inputFileName _ (Archive.encode_injective h).symm
    rw [hnames]
    cases h : job.request.input <;> simp [Job.files, h, hsource]
  refine ⟨?_, ?_, ?_⟩
  · rw [entries, Job.files]
    cases job.request.input <;> rfl
  · rw [hinput, Option.isSome_iff_exists]
    exact exists_congr fun _ => input_eq_some
  · have hlexemes := Shell.lexeme_tokens (job.profile.script job.request.input.isSome)
    refine ⟨_, _, rfl, Shell.tokens?_render _, _, _, ?_, rfl, rfl⟩
    rw [hlexemes, Shell.Script.lexemes, Shell.Script.runLexemes, Profile.script]
    simp only [hinput]
    cases job.profile.compile <;> cases job.request.input <;> simp

/-! ### The command of a run -/

namespace Supervisor

variable {c : Config} {epoch : ℕ} {s₀ b s : Supervisor} {pre post : List Event}
  {request : Request} {cancelled : Bool} {job : Job} {id : ContainerId} {argv : List String}
  {newer older : List (ℕ × Call)}

/-- What was done in a container, the first call first. -/
def usesOf (id : ContainerId) (calls : List (ℕ × Call)) : List Call :=
  (calls.reverse.map (·.2)).filter fun call => call.used? = some id

/-- What one task did in a container is all that was done there, if no other task used it. -/
theorem usesOf_eq {k : ℕ} {calls : List (ℕ × Call)}
    (only : ∀ c ∈ calls, c.2.used? = some id → c.1 = k) :
    usesOf id calls = (ofTask k calls).filter fun call => call.used? = some id := by
  unfold usesOf ofTask
  rw [List.filter_map, List.filter_map, List.filter_filter]
  refine congrArg _ (List.filter_congr fun c hc => ?_)
  have := only c (List.mem_reverse.1 hc)
  by_cases hused : c.2.used? = some id <;> simp [hused, this]

/-- When a run asked for its command it had the container, and up to then it had uploaded the
archive of its files there and done nothing else in any container. -/
theorem upload_before_exec (start : start? c epoch = some s₀) (before : s₀.after? pre = some b)
    (known : c.job? request = some job)
    (after : s₀.after? (pre ++ .run request cancelled :: post) = some s)
    (reaches : s.calls = newer ++ (b.tasks.length, .exec id argv) :: older) :
    ∃ mid s₁ stamp archive earlier, mid <+: post ∧
      s₀.after? (pre ++ .run request cancelled :: mid) = some s₁ ∧ s₁.Has b.tasks.length id ∧
      Archive.pack stamp job.files = .ok archive ∧ argv = job.argv ∧
      ofTask b.tasks.length older = earlier ++ [.upload id workingDir archive] ∧
      ∀ c ∈ earlier, c.used? = none := by
  have hafter : b.after? (.run request cancelled :: post) = some s := by
    rwa [after?_append, before, Option.bind_some] at after
  have unmade : (b.tasks.length, Call.exec id argv) ∉ b.calls := fun h =>
    ((indexed_after start before).1 _ h).ne rfl
  -- the moment of the call, which is after the beginning of the run
  obtain ⟨mid, s₁, t, hmid, hafter₁, hcalls, found, hcall⟩ :=
    moment_of_call hafter reaches unmade
  obtain ⟨mid, rfl, hpost⟩ : ∃ mid', mid = .run request cancelled :: mid' ∧ mid' <+: post := by
    cases mid with
    | nil =>
      cases hafter₁
      rw [List.getElem?_eq_none (le_refl _)] at found
      cases found
    | cons e mid' =>
      obtain ⟨rfl, h⟩ := List.cons_prefix_cons.1 hmid
      exact ⟨mid', rfl, h⟩
  have after₁ : s₀.after? (pre ++ .run request cancelled :: mid) = some s₁ := by
    rwa [after?_append, before, Option.bind_some]
  -- the course of the run up to then
  obtain ⟨r, rfl, hleased⟩ := Task.leased_of_used hcall rfl
  have kept : Event.drop b.tasks.length ∉ mid := fun h =>
    notMem_of_run hafter₁ found (List.mem_cons_of_mem _ h)
  have has : s₁.Has b.tasks.length id := ⟨r, found, hleased⟩
  obtain ⟨flag, stage, now, found', _, _, course⟩ := course_of_run start before after₁ kept known
  rw [found] at found'
  cases found'
  obtain ⟨stamp, archive, earlier, packs, rfl, hasked, unused⟩ := course.of_exec hcall
  refine ⟨mid, s₁, stamp, archive, earlier, hpost, after₁, has, packs, rfl, ?_, unused⟩
  have hlast : ofTask b.tasks.length [(b.tasks.length, Call.exec id job.argv)] =
      [.exec id job.argv] := by simp [ofTask]
  rw [askedBy, hcalls, ← List.singleton_append, ofTask_append, hlast] at hasked
  exact List.append_cancel_right (hasked.trans (List.append_cons _ _ _))

/-- **The command of a run matches the files it was given.** Consider any events that can happen, a
run of a known language among them, and its call for its command. Before it the run has uploaded to
one container only and only once, to the container of the command: into the working directory of
the container, an archive that belongs together with the command. If nobody reaches into the pools
or handles containers on their own, the container was created with the specification of the job, and
if moreover no container is created twice, nothing else was done in it by anybody before. -/
theorem command_matches_files (start : start? c epoch = some s₀) (before : s₀.after? pre = some b)
    (known : c.job? request = some job)
    (after : s₀.after? (pre ++ .run request cancelled :: post) = some s)
    (storable : ∀ f ∈ job.files, f.Storable)
    (reaches : s.calls = newer ++ (b.tasks.length, .exec id argv) :: older) :
    ∃ archive, Matches job.profile request archive argv ∧
      (ofTask b.tasks.length older).filter (·.used?.isSome) =
        [.upload id job.spec.workingDir archive] ∧
      ((∀ e ∈ pre ++ .run request cancelled :: post, e.Ordinary) →
        CreatedWith s₀ (pre ++ .run request cancelled :: post) id job.spec ∧
        ((created (pre ++ .run request cancelled :: post)).Nodup →
          usesOf id older = [.upload id job.spec.workingDir archive])) := by
  have hrequest : job.request = request := by
    obtain ⟨q, _, rfl⟩ := Option.map_eq_some_iff.1 known
    rfl
  obtain ⟨mid, s₁, stamp, archive, earlier, hpost, after₁, has, packs, rfl, hearlier, unused⟩ :=
    upload_before_exec start before known after reaches
  -- of the calls before, only the upload passes a test that no call without a container passes
  have single : ∀ {p : Call → Bool}, (∀ call, call.used? = none → p call = false) →
      p (.upload id workingDir archive) = true →
      (ofTask b.tasks.length older).filter p = [.upload id workingDir archive] := by
    intro p hp hupload
    have hnone : earlier.filter p = [] :=
      List.filter_eq_nil_iff.2 fun c hc => by simp [hp c (unused c hc)]
    rw [hearlier, List.filter_append, hnone, List.nil_append, List.filter_singleton, hupload]
    rfl
  refine ⟨archive, hrequest ▸ matches_of_pack storable packs,
    single (fun call h => by rw [h]; rfl) rfl, fun ordinary => ⟨?_, fun fresh => ?_⟩⟩
  · obtain ⟨rest, rfl⟩ := hpost
    have hmoment : pre ++ .run request cancelled :: (mid ++ rest) =
        pre ++ .run request cancelled :: mid ++ rest := by simp
    rw [hmoment] at ordinary ⊢
    exact (createdWith_of_has start before known
      (fun e he => ordinary e (List.mem_append_left _ he)) after₁ has).append rest
  · have moment : AtMoment s₀ (pre ++ .run request cancelled :: post)
        (pre ++ .run request cancelled :: mid) s₁ :=
      ⟨(List.prefix_append_right_inj pre).2 (List.cons_prefix_cons.2 ⟨rfl, hpost⟩), after₁⟩
    have only : ∀ call ∈ older, call.2.used? = some id → call.1 = b.tasks.length := by
      intro call hcall hused
      have hmem : call ∈ s.calls := by
        rw [reaches]
        exact List.mem_append_right _ (List.mem_cons_of_mem _ hcall)
      obtain ⟨pre', s₂, moment', has'⟩ := user_of_call start ordinary after hmem hused
      exact sole_user start ordinary fresh moment' has' moment has
    rw [usesOf_eq only]
    exact single (fun call h => by simp [h]) (by simp [Call.used?])

/-- The source file of the language below. -/
def mainFile : SourceFile := ⟨"main.c", by decide +kernel⟩

/-- No pools and one language, which is compiled. -/
def compiling : Config where
  pool := { size := 0 }
  languages := [("c", ⟨"gcc", mainFile, some ["gcc", "main.c"], ["./a.out"], none, none⟩)]

/-- A request with input. -/
def sumRequest : Request := ⟨"c", "int main() {}", some "1 2", none, none⟩

/-- A run creates and starts its container and uploads its files. -/
def compilingRun : List Event :=
  [.run sumRequest false, .signal 0 (.reply (.created (.ok ⟨"a"⟩))),
    .signal 0 (.reply (.done (.ok ()))), .signal 0 (.reply (.done (.ok ())))]

theorem command_matches_files_compilingRun : ∃ s₀ s job argv older archive,
    start? compiling 0 = some s₀ ∧ compiling.job? sumRequest = some job ∧
      s₀.after? compilingRun = some s ∧ s.calls = (0, .exec ⟨"a"⟩ argv) :: older ∧
      Matches job.profile sumRequest archive argv ∧
      usesOf ⟨"a"⟩ older = [.upload ⟨"a"⟩ "/app" archive] := by
  have hs : ∃ s₀ s job argv older, start? compiling 0 = some s₀ ∧ s₀.tasks = [] ∧
      compiling.job? sumRequest = some job ∧ (∀ f ∈ job.files, f.Storable) ∧
      job.spec.workingDir = "/app" ∧ s₀.after? compilingRun = some s ∧
      s.calls = (0, .exec ⟨"a"⟩ argv) :: older :=
    ⟨_, _, _, _, _, rfl, rfl, rfl, by decide +kernel, rfl, rfl, rfl⟩
  obtain ⟨s₀, s, job, argv, older, start, hnil, known, storable, hdir, after, hcalls⟩ := hs
  have reaches : s.calls = [] ++ (s₀.tasks.length, .exec ⟨"a"⟩ argv) :: older := by
    rw [hnil, hcalls]
    rfl
  obtain ⟨archive, hmatches, -, hcontainer⟩ :=
    command_matches_files start (after?_nil s₀) known after storable reaches
  have ordinary : ∀ e ∈ [] ++ compilingRun, e.Ordinary := by simp [compilingRun, Event.Ordinary]
  obtain ⟨-, hused⟩ := hcontainer ordinary
  exact ⟨s₀, s, job, argv, older, archive, start, known, after, hcalls, hmatches,
    hdir ▸ hused (by decide)⟩

end Supervisor

end Isolate
