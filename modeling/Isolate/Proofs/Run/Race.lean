import Mathlib.Data.List.TakeWhile
import Isolate.Proofs.Run.Timeline

/-!
# Who wins the race

While an execution gathers output, three things race: the end of the output, the time limit and a
cancellation. The time limit counts from the start of the execution, but it is looked at only once
the command is open: so the moment at which it stops a command is the later one of the two.

* `Timeline.deadline`, `Timeline.closes`, `Timeline.ended`: the moments that matter;
* `leads_frames`: output is taken as it arrives;
* `Timeline.Decided`: how a race ends without a question for the exit code;
* `race_outcome`: what becomes of an execution on any timeline.
-/

namespace Isolate

namespace Instant

variable {o : Option Instant} {t : Instant}

theorem coe_lt_orNever : (t : ℕ∞) < orNever o ↔ ∀ u, o = some u → t < u := by
  cases o with
  | none => simp [orNever]
  | some u => simp [orNever, Nat.cast_lt (α := ℕ∞)]

theorem coe_le_orNever : (t : ℕ∞) ≤ orNever o ↔ ∀ u, o = some u → t ≤ u := by
  cases o with
  | none => simp [orNever]
  | some u => simp [orNever]

theorem orNever_eq_top : orNever o = ⊤ ↔ o = none := by
  cases o with
  | none => simp [orNever]
  | some u => simp [orNever]

theorem orNever_eq_coe : orNever o = (t : ℕ∞) ↔ o = some t := by
  cases o with
  | none => simp [orNever]
  | some u => simp [orNever]

end Instant

namespace Timeline

variable {T : Timeline} {now t c : Instant} {exec : ExecId} {p : Capture × Capture}
  {calls : List Call} {rest : List (Instant × Reply)}

/-! ### The moments that matter -/

/-- When the time limit is over. -/
def deadline (T : Timeline) : ℕ∞ := Instant.orNever (T.start.after? T.limit)

/-- When the time limit stops a command whose output goes on: not before it is open. -/
def closes (T : Timeline) : ℕ∞ := Instant.orNever ((T.start.after? T.limit).map (max T.opened))

/-- When the output ends. -/
def ended (T : Timeline) : ℕ∞ := Instant.orNever (T.ending.map Prod.fst)

/-- When the caller cancels. -/
def cancels (T : Timeline) : ℕ∞ := Instant.orNever T.cancel

/-- The execution of a timeline at some point. -/
def execution (T : Timeline) (point : Execution.Point) : Execution :=
  ⟨T.container, T.argv, T.cap, T.start, T.start.after? T.limit, point⟩

/-- The captures after some pieces of output. -/
def gathered (p : Capture × Capture) (fs : List (Instant × Chunk)) : Capture × Capture :=
  fs.foldl (fun p f => Execution.gather p.1 p.2 f.2) p

/-- What is kept of some pieces of output, for each stream. -/
def captured (T : Timeline) (fs : List (Instant × Chunk)) : Capture × Capture :=
  gathered (.empty T.cap, .empty T.cap) fs

/-- Output is gathered. -/
def collecting (T : Timeline) (now : Instant) (exec : ExecId) (p : Capture × Capture)
    (answers : List (Instant × Reply)) (calls : List Call) : State :=
  ⟨now, .going (T.execution (.collecting exec p.1 p.2)), answers, calls⟩

/-- The engine has answered that the command is open, and no output has been taken yet. -/
def opening (T : Timeline) (exec : ExecId) (calls : List Call) : State :=
  T.collecting T.opened exec (.empty T.cap, .empty T.cap) (T.frames.map frame ++ T.ends) calls

theorem cancels_eq (h : T.cancel = some c) : T.cancels = (c : ℕ∞) := by
  rw [cancels, h]
  rfl

theorem cancelledAt_eq_false (h : (t : ℕ∞) < T.cancels) : T.cancelledAt t = false := by
  unfold cancelledAt
  cases hc : T.cancel with
  | none => rfl
  | some c =>
    have hlt : t < c := Instant.coe_lt_orNever.1 h c hc
    simpa using hlt

theorem cancelledAt_self (h : T.cancel = some c) : T.cancelledAt c = true := by
  simp [cancelledAt, h]

theorem wake?_collecting {stdout stderr : Capture} :
    (T.execution (.collecting exec stdout stderr)).wake? = T.start.after? T.limit := by
  -- for any deadline: with this one in its place the kernel would compute with the clock's horizon
  have h : ∀ deadline, Execution.wake?
      ⟨T.container, T.argv, T.cap, T.start, deadline, .collecting exec stdout stderr⟩ = deadline :=
    fun _ => rfl
  exact h _

/-- The time limit of a command that is open stops it no sooner than it closes. -/
theorem le_wake {stdout stderr : Capture} (ho : T.opened ≤ now) (ht : (t : ℕ∞) ≤ T.closes) :
    ∀ wake, (T.execution (.collecting exec stdout stderr)).wake? = some wake →
      t ≤ max now wake := by
  intro wake hw
  rw [wake?_collecting] at hw
  have hle : t ≤ max T.opened wake := Instant.coe_le_orNever.1 ht _ (by rw [hw]; rfl)
  exact hle.trans (max_le_max_right wake ho)

/-! ### Output is taken as it arrives -/

/-- An answer that arrives before the command closes and before it is cancelled comes first. -/
theorem next_collecting {r : Reply} {stdout stderr : Capture} (hn : now ≤ t) (ho : T.opened ≤ now)
    (hX : (t : ℕ∞) ≤ T.closes) (hc : (t : ℕ∞) < T.cancels) :
    T.next now (T.execution (.collecting exec stdout stderr)) ((t, r) :: rest) =
      some (t, .reply r) := by
  refine next_of_reply rfl ?_ hn (fun c _ hcancel => ?_) (le_wake ho hX)
  · rintro ending n wake ⟨⟩
  · exact Instant.coe_lt_orNever.1 hc c hcancel

theorem advance_frame {f : Instant × Chunk} (hn : now ≤ f.1) (ho : T.opened ≤ now)
    (hX : (f.1 : ℕ∞) ≤ T.closes) (hc : (f.1 : ℕ∞) < T.cancels) :
    T.advance (T.collecting now exec p (frame f :: rest) calls) =
      T.collecting f.1 exec (Execution.gather p.1 p.2 f.2) rest calls := by
  have hnext : T.next now (T.execution (.collecting exec p.1 p.2)) (frame f :: rest) =
      some (f.1, .reply (.output (.ok f.2))) :=
    next_collecting hn ho hX hc
  have hstep : (T.execution (.collecting exec p.1 p.2)).step f.1 (T.cancelledAt f.1)
      (.reply (.output (.ok f.2))) = some (.going (T.execution (.collecting exec
        (Execution.gather p.1 p.2 f.2).1 (Execution.gather p.1 p.2 f.2).2))) := by
    rw [cancelledAt_eq_false hc]
    rfl
  rw [advance_eq rfl hnext hstep]
  simp [collecting, leftover, callsOf, execution, Execution.call?]

/-- **Output that arrives before the command closes and before it is cancelled is gathered.** -/
theorem leads_frames {fs : List (Instant × Chunk)} (hs : (now :: fs.map Prod.fst).Pairwise (· ≤ ·))
    (ho : T.opened ≤ now) (hX : ∀ f ∈ fs, (f.1 : ℕ∞) ≤ T.closes)
    (hc : ∀ f ∈ fs, (f.1 : ℕ∞) < T.cancels) :
    ∃ now' ∈ now :: fs.map Prod.fst, T.Leads (T.collecting now exec p (fs.map frame ++ rest) calls)
      (T.collecting now' exec (gathered p fs) rest calls) := by
  -- each piece is taken at its own moment, and the others come after it
  induction fs generalizing now p with
  | nil => exact ⟨now, List.mem_singleton.2 rfl, Leads.refl _⟩
  | cons f fs ih =>
    obtain ⟨hle, htail⟩ := List.pairwise_cons.1 hs
    have hn : now ≤ f.1 := hle f.1 (by simp)
    obtain ⟨now', hmem, hleads⟩ := ih htail (ho.trans hn) (fun g hg => hX g (by simp [hg]))
      (fun g hg => hc g (by simp [hg]))
    refine ⟨now', List.mem_cons_of_mem _ hmem, Leads.of_advance ?_⟩
    rw [List.map_cons, List.cons_append, advance_frame hn ho (hX f (by simp)) (hc f (by simp))]
    exact hleads

/-! ### What is taken and what is left -/

/-- The first answer that is not a piece of output taken before. -/
theorem head_rest {P : Instant × Chunk → Bool} {a : Instant × Reply}
    (h : ((T.frames.dropWhile P).map frame ++ T.ends).head? = some a) :
    (∃ f ∈ T.frames, P f = false ∧ a.1 = f.1) ∨ ∃ how, T.ending = some (a.1, how) := by
  cases hd : T.frames.dropWhile P with
  | nil =>
    rw [hd] at h
    exact Or.inr (ends_head h)
  | cons f fs =>
    rw [hd] at h
    cases h
    have hne : T.frames.dropWhile P ≠ [] := by rw [hd]; exact List.cons_ne_nil f fs
    have hP : P f = false := by simpa [hd] using List.head_dropWhile_not P hne
    have hmem : f ∈ T.frames := (List.dropWhile_suffix P).subset (by rw [hd]; simp)
    exact Or.inl ⟨f, hmem, hP, rfl⟩

/-- The pieces of output taken come before all others. -/
theorem ordered_takeWhile (T : Timeline) (P : Instant × Chunk → Bool) :
    (T.opened :: (T.frames.takeWhile P).map Prod.fst).Pairwise (· ≤ ·) := by
  have h := (List.pairwise_cons.1 T.ordered).2
  refine h.sublist (List.Sublist.cons_cons _ ?_)
  exact ((List.takeWhile_sublist P).map Prod.fst).trans (List.sublist_append_left _ _)

/-- In order, the pieces that come up to the first late one are those that are not late. -/
theorem takeWhile_eq_filter {fs : List (Instant × Chunk)} {x : Instant}
    (h : (fs.map Prod.fst).Pairwise (· ≤ ·)) :
    fs.takeWhile (·.1 ≤ x) = fs.filter (·.1 ≤ x) := by
  induction fs with
  | nil => rfl
  | cons f fs ih =>
    obtain ⟨hle, htail⟩ := List.pairwise_cons.1 h
    by_cases hf : f.1 ≤ x
    · simp [hf, ih htail]
    · have hlate : ∀ g ∈ fs, ¬ g.1 ≤ x := by
        intro g hg hx
        exact hf ((hle g.1 (List.mem_map_of_mem hg)).trans hx)
      have hnone : fs.filter (·.1 ≤ x) = [] := List.filter_eq_nil_iff.2 (by simpa using hlate)
      simp [hf, hnone]

/-- The pieces that have arrived at a moment. -/
def arrived (T : Timeline) (x : Instant) : List (Instant × Chunk) := T.frames.filter (·.1 ≤ x)

theorem takeWhile_eq_arrived (T : Timeline) (x : Instant) :
    T.frames.takeWhile (·.1 ≤ x) = T.arrived x := by
  refine takeWhile_eq_filter ?_
  have h := (List.pairwise_cons.1 (List.pairwise_cons.1 T.ordered).2).2
  exact h.sublist (List.sublist_append_left _ _)

/-- When all pieces up to some have been taken, the moment is that of the last one. -/
theorem leads_taken (P : Instant × Chunk → Bool) (exec : ExecId) (calls : List Call)
    (hX : ∀ f ∈ T.frames, P f = true → (f.1 : ℕ∞) ≤ T.closes)
    (hc : ∀ f ∈ T.frames, P f = true → (f.1 : ℕ∞) < T.cancels) :
    ∃ now', T.opened ≤ now' ∧
      (∀ u, T.opened ≤ u → (∀ f ∈ T.frames, P f = true → f.1 ≤ u) → now' ≤ u) ∧
      T.Leads (T.opening exec calls)
        (T.collecting now' exec (T.captured (T.frames.takeWhile P))
          ((T.frames.dropWhile P).map frame ++ T.ends) calls) := by
  have hmem : ∀ f ∈ T.frames.takeWhile P, f ∈ T.frames ∧ P f = true := fun f hf =>
    ⟨(List.takeWhile_sublist P).subset hf, List.mem_takeWhile_imp hf⟩
  have hord := T.ordered_takeWhile P
  have hsplit : T.opening exec calls = T.collecting T.opened exec (.empty T.cap, .empty T.cap)
      ((T.frames.takeWhile P).map frame ++ ((T.frames.dropWhile P).map frame ++ T.ends)) calls := by
    rw [← List.append_assoc, ← List.map_append, List.takeWhile_append_dropWhile, opening]
  have hgathered : ∃ now' ∈ T.opened :: (T.frames.takeWhile P).map Prod.fst,
      T.Leads (T.opening exec calls) (T.collecting now' exec (T.captured (T.frames.takeWhile P))
        ((T.frames.dropWhile P).map frame ++ T.ends) calls) := by
    rw [hsplit]
    exact leads_frames hord le_rfl (fun f hf => hX f (hmem f hf).1 (hmem f hf).2)
      (fun f hf => hc f (hmem f hf).1 (hmem f hf).2)
  obtain ⟨now', hnow, hleads⟩ := hgathered
  refine ⟨now', ?_, ?_, hleads⟩
  · rcases List.mem_cons.1 hnow with rfl | h
    · exact le_rfl
    · exact (List.pairwise_cons.1 hord).1 now' h
  · intro u hu hf
    rcases List.mem_cons.1 hnow with rfl | h
    · exact hu
    · obtain ⟨f, hmemf, rfl⟩ := List.mem_map.1 h
      exact hf f (hmem f hmemf).1 (hmem f hmemf).2

/-! ### How the race ends -/

theorem advance_cancel {answers : List (Instant × Reply)} (hc : T.cancel = some c) (hn : now ≤ c)
    (ho : T.opened ≤ now) (hX : (c : ℕ∞) ≤ T.closes)
    (ha : ∀ a, answers.head? = some a → c ≤ a.1) :
    T.advance (T.collecting now exec p answers calls) =
      ⟨c, .finished (.error .cancelled), answers, calls⟩ := by
  have hnext : T.next now (T.execution (.collecting exec p.1 p.2)) answers = some (c, .notice) :=
    next_of_notice rfl hc hn ha (le_wake ho hX)
  have hstep : (T.execution (.collecting exec p.1 p.2)).step c (T.cancelledAt c) .notice =
      some (.finished (.error .cancelled)) := by
    rw [cancelledAt_self hc]
    rfl
  rw [advance_eq rfl hnext hstep]
  simp [collecting, leftover, callsOf]

theorem advance_failure {e : EngineError} (hn : now ≤ t) (ho : T.opened ≤ now)
    (hX : (t : ℕ∞) ≤ T.closes) (hc : (t : ℕ∞) < T.cancels) :
    T.advance (T.collecting now exec p ((t, .output (.error e)) :: rest) calls) =
      ⟨t, .finished (.error (.output e)), rest, calls⟩ := by
  have hnext : T.next now (T.execution (.collecting exec p.1 p.2))
      ((t, .output (.error e)) :: rest) = some (t, .reply (.output (.error e))) :=
    next_collecting hn ho hX hc
  have hstep : (T.execution (.collecting exec p.1 p.2)).step t (T.cancelledAt t)
      (.reply (.output (.error e))) = some (.finished (.error (.output e))) := by
    rw [cancelledAt_eq_false hc]
    rfl
  rw [advance_eq rfl hnext hstep]
  simp [collecting, leftover, callsOf]

/-- The exit code is asked for the first time, with the output and the time used up to a moment. -/
def inspecting (T : Timeline) (t : Instant) (exec : ExecId) (p : Capture × Capture)
    (answers : List (Instant × Reply)) (calls : List Call) : State :=
  ⟨t, .going (T.execution (.inspecting ⟨exec, p.1, p.2, T.start.since t⟩ 1)), answers,
    calls ++ [.exitCode exec]⟩

theorem advance_end (hn : now ≤ t) (ho : T.opened ≤ now) (hX : (t : ℕ∞) ≤ T.closes)
    (hc : (t : ℕ∞) < T.cancels) :
    T.advance (T.collecting now exec p ((t, .ended) :: rest) calls) =
      T.inspecting t exec p rest calls := by
  have hnext : T.next now (T.execution (.collecting exec p.1 p.2)) ((t, .ended) :: rest) =
      some (t, .reply .ended) :=
    next_collecting hn ho hX hc
  have hstep : (T.execution (.collecting exec p.1 p.2)).step t (T.cancelledAt t) (.reply .ended) =
      some (.going (T.execution (.inspecting ⟨exec, p.1, p.2, T.start.since t⟩ 1))) := by
    rw [cancelledAt_eq_false hc]
    rfl
  rw [advance_eq rfl hnext hstep]
  simp [collecting, inspecting, leftover, callsOf, execution, Execution.call?]

/-- The outcome of a command that was stopped at a moment. -/
def stopped (T : Timeline) (x : Instant) (p : Capture × Capture) : Outcome where
  stdout := p.1.text
  stderr := p.2.text ++ Execution.timeoutNotice
  exitCode := timeoutExitCode
  timeUsed := T.start.since x
  memoryUsed := 0
  timedOut := true

theorem advance_timeout {x wake : Instant} {answers : List (Instant × Reply)}
    (hw : T.start.after? T.limit = some wake) (hx : max now wake = x)
    (hc : (x : ℕ∞) < T.cancels) (ha : ∀ a, answers.head? = some a → x < a.1) :
    T.advance (T.collecting now exec p answers calls) =
      ⟨x, .finished (.ok (T.stopped x p)), answers, calls⟩ := by
  have hnext : T.next now (T.execution (.collecting exec p.1 p.2)) answers = some (x, .timer) :=
    next_of_timer (wake?_collecting.trans hw) hx (Instant.coe_lt_orNever.1 hc) ha
  have hover : (T.start.after? T.limit).any (· ≤ x) = true := by
    have hle : wake ≤ x := hx ▸ le_max_right now wake
    simpa [hw] using hle
  have hstep : (T.execution (.collecting exec p.1 p.2)).step x (T.cancelledAt x) .timer =
      some (.finished (.ok (T.stopped x p))) := by
    rw [cancelledAt_eq_false hc]
    exact if_pos hover
  rw [advance_eq rfl hnext hstep]
  simp [collecting, leftover, callsOf]

/-- **A command that is cancelled before its output ends and before it closes.** -/
theorem leads_cancelled (hc : T.cancel = some c) (ho : T.opened < c) (hT : (c : ℕ∞) < T.ended)
    (hX : (c : ℕ∞) < T.closes) :
    ∃ rest, T.Leads (T.opening exec calls) ⟨c, .finished (.error .cancelled), rest, calls⟩ := by
  have hbefore : ∀ f ∈ T.frames, decide (f.1 < c) = true → (f.1 : ℕ∞) < (c : ℕ∞) := by
    intro f _ hf
    exact Nat.cast_lt.2 (of_decide_eq_true hf)
  obtain ⟨now', hnow, hleast, hleads⟩ := T.leads_taken
    (fun f => decide (f.1 < c)) exec calls
    (fun f hf hfc => ((hbefore f hf hfc).trans hX).le)
    (fun f hf hfc => cancels_eq hc ▸ hbefore f hf hfc)
  have hle : now' ≤ c := hleast c ho.le fun f _ hf => (of_decide_eq_true hf).le
  refine ⟨_, hleads.trans (.single (advance_cancel hc hle hnow hX.le ?_))⟩
  intro a ha
  rcases head_rest ha with ⟨f, _, hf, heq⟩ | ⟨how, hend⟩
  · rw [heq]
    exact Nat.not_lt.1 (of_decide_eq_false hf)
  · exact (Instant.coe_lt_orNever.1 hT a.1 (by rw [hend]; rfl)).le

/-- All pieces of output come no later than its end. -/
theorem le_of_ending {how : Except EngineError Unit} (h : T.ending = some (t, how)) :
    T.opened ≤ t ∧ ∀ f ∈ T.frames, f.1 ≤ t := by
  obtain ⟨hopen, hrest⟩ := List.pairwise_cons.1 (List.pairwise_cons.1 T.ordered).2
  have hmem : t ∈ (T.ending.map Prod.fst).toList := by simp [h]
  refine ⟨hopen t (List.mem_append_right _ hmem), fun f hf => ?_⟩
  exact (List.pairwise_append.1 hrest).2.2 f.1 (List.mem_map_of_mem hf) t hmem

/-- **Output that ends before the command closes and before it is cancelled is gathered to its
end.** -/
theorem leads_end {how : Except EngineError Unit} (h : T.ending = some (t, how))
    (hX : (t : ℕ∞) ≤ T.closes) (hc : (t : ℕ∞) < T.cancels) :
    ∃ now' ≤ t, T.opened ≤ now' ∧
      T.Leads (T.opening exec calls)
        (T.collecting now' exec (T.captured T.frames) T.ends calls) := by
  obtain ⟨hopen, hframes⟩ := le_of_ending h
  have hcast : ∀ f ∈ T.frames, (f.1 : ℕ∞) ≤ (t : ℕ∞) := fun f hf => Nat.cast_le.2 (hframes f hf)
  obtain ⟨now', hnow, hleast, hleads⟩ := T.leads_taken (fun _ => true) exec calls
    (fun f hf _ => (hcast f hf).trans hX) (fun f hf _ => (hcast f hf).trans_lt hc)
  refine ⟨now', hleast t hopen fun f hf _ => hframes f hf, hnow, ?_⟩
  rw [List.takeWhile_eq_self_iff.2 (by simp), List.dropWhile_eq_nil_iff.2 (by simp)] at hleads
  exact hleads

theorem leads_failure {e : EngineError} (h : T.ending = some (t, .error e))
    (hX : (t : ℕ∞) ≤ T.closes) (hc : (t : ℕ∞) < T.cancels) :
    T.Leads (T.opening exec calls) ⟨t, .finished (.error (.output e)), [], calls⟩ := by
  obtain ⟨now', hn, ho, hleads⟩ := leads_end h hX hc
  have hends : T.ends = [(t, .output (.error e))] := by simp [ends, h]
  rw [hends] at hleads
  exact hleads.trans (.single (advance_failure hn ho hX hc))

theorem leads_inspecting (h : T.ending = some (t, .ok ())) (hX : (t : ℕ∞) ≤ T.closes)
    (hc : (t : ℕ∞) < T.cancels) :
    T.Leads (T.opening exec calls) (T.inspecting t exec (T.captured T.frames) T.codes calls) := by
  obtain ⟨now', hn, ho, hleads⟩ := leads_end h hX hc
  have hends : T.ends = (t, .ended) :: T.codes := by simp [ends, h]
  rw [hends] at hleads
  exact hleads.trans (.single (advance_end hn ho hX hc))

/-- **A command whose output goes on when it closes is stopped with what has arrived by then.** -/
theorem leads_timeout {x : Instant} (hX : T.closes = (x : ℕ∞)) (hT : (x : ℕ∞) < T.ended)
    (hc : (x : ℕ∞) < T.cancels) :
    ∃ rest, T.Leads (T.opening exec calls)
      ⟨x, .finished (.ok (T.stopped x (T.captured (T.arrived x)))), rest, calls⟩ := by
  obtain ⟨wake, hw, hmax⟩ := Option.map_eq_some_iff.1 (Instant.orNever_eq_coe.1 hX)
  have hcast : ∀ f ∈ T.frames, decide (f.1 ≤ x) = true → (f.1 : ℕ∞) ≤ (x : ℕ∞) := by
    intro f _ hf
    exact Nat.cast_le.2 (of_decide_eq_true hf)
  obtain ⟨now', hnow, hleast, hleads⟩ := T.leads_taken
    (fun f => decide (f.1 ≤ x)) exec calls
    (fun f hf hfx => (hcast f hf hfx).trans hX.ge)
    (fun f hf hfx => (hcast f hf hfx).trans_lt hc)
  have hle : now' ≤ x := hleast x (hmax ▸ le_max_left _ _) fun f _ hf => of_decide_eq_true hf
  -- if the command is open only after its time is over, the wait ends at once
  have hover : max now' wake = x := by
    refine le_antisymm (max_le hle (hmax ▸ le_max_right _ _)) ?_
    rw [← hmax]
    exact max_le_max_right wake hnow
  rw [takeWhile_eq_arrived] at hleads
  refine ⟨_, hleads.trans (.single (advance_timeout hw hover hc ?_))⟩
  intro a ha
  rcases head_rest ha with ⟨f, _, hf, heq⟩ | ⟨how, hend⟩
  · rw [heq]
    exact Nat.not_le.1 (of_decide_eq_false hf)
  · exact Instant.coe_lt_orNever.1 hT a.1 (by rw [hend]; rfl)

/-! ### The start -/

/-- The command that is to be run. -/
def command (T : Timeline) : Call := .exec T.container T.argv

theorem start_le_opened (T : Timeline) : T.start ≤ T.opened :=
  (List.pairwise_cons.1 T.ordered).1 T.opened (by simp)

theorem begin_cancelled (h : T.cancels < (T.start : ℕ∞)) :
    T.begin = ⟨T.start, .finished (.error .cancelled), T.answers, []⟩ := by
  have hcancelled : T.cancelledAt T.start = true := by
    cases hc : T.cancel with
    | none => simp [cancels, hc, Instant.orNever] at h
    | some c =>
      have hlt : c < T.start := Nat.cast_lt.1 (cancels_eq hc ▸ h)
      simpa [cancelledAt, hc] using hlt.le
  simp [begin, Execution.begin, hcancelled, callsOf]

theorem begin_eq (h : (T.start : ℕ∞) < T.cancels) :
    T.begin = ⟨T.start, .going (T.execution .opening), T.answers, [T.command]⟩ := by
  simp [begin, Execution.begin, cancelledAt_eq_false h, callsOf, Execution.call?, execution,
    command]

/-- The caller cancels while the command is being opened. -/
theorem advance_begin_cancel (hc : T.cancel = some c) (hs : T.start < c) (ho : c < T.opened) :
    T.advance T.begin = ⟨c, .finished (.error .cancelled), T.answers, [T.command]⟩ := by
  have hbegin := begin_eq (T := T) (by rw [cancels_eq hc]; exact Nat.cast_lt.2 hs)
  have hnext : T.next T.start (T.execution .opening) T.answers = some (c, .notice) := by
    refine next_of_notice rfl hc hs.le ?_ ?_
    · intro a ha
      cases ha
      exact ho.le
    · intro wake hw
      cases hw
  have hstep : (T.execution .opening).step c (T.cancelledAt c) .notice =
      some (.finished (.error .cancelled)) := by
    rw [cancelledAt_self hc]
    rfl
  rw [hbegin, advance_eq rfl hnext hstep]
  simp [leftover, callsOf]

theorem next_opened (h : (T.opened : ℕ∞) < T.cancels) :
    T.next T.start (T.execution .opening) T.answers =
      some (T.opened, .reply (.opened T.session)) := by
  refine next_of_reply rfl ?_ T.start_le_opened (fun c _ hc => ?_) ?_
  · rintro ending n wake ⟨⟩
  · exact Instant.coe_lt_orNever.1 h c hc
  · rintro wake ⟨⟩

theorem start_lt_cancels (h : (T.opened : ℕ∞) < T.cancels) : (T.start : ℕ∞) < T.cancels :=
  (Nat.cast_le.2 T.start_le_opened).trans_lt h

/-- The engine cannot open the command. -/
theorem advance_begin_error {e : EngineError} (h : (T.opened : ℕ∞) < T.cancels)
    (he : T.session = .error e) :
    T.advance T.begin = ⟨T.opened, .finished (.error (.exec e)), T.answers.tail, [T.command]⟩ := by
  have hstep : (T.execution .opening).step T.opened (T.cancelledAt T.opened)
      (.reply (.opened T.session)) = some (.finished (.error (.exec e))) := by
    rw [cancelledAt_eq_false h, he]
    rfl
  rw [begin_eq (start_lt_cancels h), advance_eq rfl (next_opened h) hstep]
  simp [leftover, callsOf]

/-- The engine opens the command. -/
theorem advance_begin_ok (h : (T.opened : ℕ∞) < T.cancels) (he : T.session = .ok exec) :
    T.advance T.begin = T.opening exec [T.command] := by
  have hstep : (T.execution .opening).step T.opened (T.cancelledAt T.opened)
      (.reply (.opened T.session)) =
        some (.going (T.execution (.collecting exec (.empty T.cap) (.empty T.cap)))) := by
    rw [cancelledAt_eq_false h, he]
    rfl
  rw [begin_eq (start_lt_cancels h), advance_eq rfl (next_opened h) hstep]
  simp [leftover, callsOf, opening, collecting, answers, Execution.call?, execution]

theorem leads_opening (h : (T.opened : ℕ∞) < T.cancels) (he : T.session = .ok exec) :
    T.Leads T.begin (T.opening exec [T.command]) := .single (advance_begin_ok h he)

/-! ### After the race -/

/-- The exit code of a command is being asked for, or was found. -/
def Settling (ending : Execution.Ending) : Progress Execution Execution.Result → Prop
  | .going x => (∃ n, x.point = .inspecting ending n) ∨ ∃ n wake, x.point = .pausing ending n wake
  | .finished r => ∀ o, r = .ok o → ∃ code, o = ending.outcome code

/-- Asking for the exit code changes nothing that is known about the command. -/
theorem settling_step {ending : Execution.Ending} {x : Execution} {cancelled : Bool} {sig : Signal}
    {p : Progress Execution Execution.Result} (h : Settling ending (.going x))
    (hs : x.step now cancelled sig = some p) : Settling ending p := by
  rcases h with ⟨n, hp⟩ | ⟨n, wake, hp⟩
  · obtain ⟨answer, _, rfl⟩ := Execution.step_inspecting hp hs
    unfold Execution.inspected
    split
    · rintro o ⟨⟩
    · split_ifs
      · rintro o ⟨⟩
        exact ⟨_, rfl⟩
      · rintro o ⟨⟩
    · split_ifs
      · exact Or.inr ⟨_, _, rfl⟩
      · rintro o ⟨⟩
  · obtain ⟨_, _, rfl⟩ := Execution.step_pausing hp hs
    exact Or.inl ⟨_, rfl⟩

/-- Nothing stops an execution after some time, and nothing has. -/
def Unlimited : Progress Execution Execution.Result → Prop
  | .going x => x.deadline = none
  | .finished r => ∀ o, r = .ok o → o.timedOut = false

theorem unlimited_step {x : Execution} {cancelled : Bool} {sig : Signal}
    {p : Progress Execution Execution.Result} (h : Unlimited (.going x))
    (hs : x.step now cancelled sig = some p) : Unlimited p := by
  have hdeadline : x.deadline = none := h
  cases p with
  | going x' =>
    obtain ⟨point, rfl⟩ := Execution.point_of_going hs
    exact hdeadline
  | finished r =>
    rintro o rfl
    cases hp : x.point with
    | opening =>
      rcases Execution.step_opening hp hs with ⟨_, _, he⟩ | ⟨_, _, _, he⟩ | ⟨_, _, _, he⟩
      · cases he
      · cases he
      · cases he
    | collecting exec stdout stderr =>
      rcases Execution.step_collecting hp hs with ⟨_, _, he⟩ | ⟨_, _, _, he⟩ | ⟨_, _, _, he⟩ |
        ⟨_, _, he⟩ | ⟨_, _, hover, he⟩
      · cases he
      · cases he
      · cases he
      · cases he
      · simp [hdeadline] at hover
    | inspecting ending n =>
      have hsettling : Settling ending (.finished (.ok o)) := settling_step (Or.inl ⟨n, hp⟩) hs
      obtain ⟨code, rfl⟩ := hsettling o rfl
      rfl
    | pausing ending n wake =>
      obtain ⟨_, _, he⟩ := Execution.step_pausing hp hs
      cases he

/-! ### The outcome -/

/-- From some signal on there is a result, and the engine is asked nothing more. -/
def Yields (T : Timeline) (t : Instant) (r : Execution.Result) (calls : List Call) : Prop :=
  ∃ n rest, ∀ m, n ≤ m → T.run m = ⟨t, .finished r, rest, calls⟩

/-- The exit code is asked for with the output and the time used up to a moment. Any outcome there
is tells of these, and there is one as soon as the engine tells the exit code. -/
def Inspects (T : Timeline) (t : Instant) (exec : ExecId) (p : Capture × Capture) : Prop :=
  (∃ n, T.run n = T.inspecting t exec p T.codes [T.command]) ∧
    (∀ m o, (T.run m).progress = .finished (.ok o) →
      o.stdout = p.1.text ∧ o.stderr = p.2.text ∧ o.timeUsed = T.start.since t ∧
        o.timedOut = false) ∧
    ∀ u code rest, T.codes = (u, .code (.ok (some code))) :: rest → isInt32 code →
      T.Yields (max t u) (.ok ⟨p.1.text, p.2.text, code, T.start.since t, 0, false⟩)
        [T.command, .exitCode exec]

theorem Leads.yields {r : Execution.Result} (h : T.Leads T.begin ⟨t, .finished r, rest, calls⟩) :
    T.Yields t r calls := by
  obtain ⟨n, hn⟩ := h.exists_run
  refine ⟨n, rest, fun m hm => ?_⟩
  rw [← hn]
  exact run_of_finished (by rw [hn]) hm

/-- The engine tells the exit code. -/
theorem advance_code {u : Instant} {code : ℤ} (hcode : isInt32 code) :
    T.advance (T.inspecting t exec p ((u, .code (.ok (some code))) :: rest) calls) =
      ⟨max t u, .finished (.ok ⟨p.1.text, p.2.text, code, T.start.since t, 0, false⟩), rest,
        calls ++ [.exitCode exec]⟩ := by
  have hstep : (T.execution (.inspecting ⟨exec, p.1, p.2, T.start.since t⟩ 1)).step (max t u)
      (T.cancelledAt (max t u)) (.reply (.code (.ok (some code)))) =
        some (.finished (.ok ⟨p.1.text, p.2.text, code, T.start.since t, 0, false⟩)) :=
    congrArg some (if_pos hcode)
  rw [advance_eq rfl rfl hstep]
  simp [inspecting, leftover, callsOf]

theorem Leads.inspects (h : T.Leads T.begin (T.inspecting t exec p T.codes [T.command])) :
    T.Inspects t exec p := by
  obtain ⟨n, hn⟩ := h.exists_run
  refine ⟨⟨n, hn⟩, fun m o hm => ?_, fun u code rest hcodes hcode => ?_⟩
  -- no outcome comes before the question
  · have hle : n ≤ m := by
      by_contra hlt
      have hfinished : (T.run n).progress = .finished (.ok o) := by
        rw [run_of_finished hm (Nat.le_of_not_le hlt), hm]
      rw [hn] at hfinished
      cases hfinished
    have hsettling := progress_run (P := Settling ⟨exec, p.1, p.2, T.start.since t⟩) hle
      (by rw [hn]; exact Or.inl ⟨_, rfl⟩) settling_step
    rw [hm] at hsettling
    obtain ⟨code, rfl⟩ := hsettling o rfl
    exact ⟨rfl, rfl, rfl, rfl⟩
  · rw [hcodes] at h
    exact (h.trans (.single (advance_code hcode))).yields

/-- An execution whose time limit the clock cannot show is never stopped. -/
theorem not_timedOut (h : T.deadline = ⊤) (n : ℕ) {o : Outcome}
    (ho : (T.run n).progress = .finished (.ok o)) : o.timedOut = false := by
  have hnone : T.start.after? T.limit = none := Instant.orNever_eq_top.1 h
  have hbegin : Unlimited T.begin.progress := by
    simp only [begin, Execution.begin]
    split_ifs
    · rintro o ⟨⟩
    · exact hnone
  have hunlimited := progress_run (P := Unlimited) (Nat.zero_le n) hbegin unlimited_step
  rw [ho] at hunlimited
  exact hunlimited o rfl

/-- The race is over at a moment and its result needs no exit code: the caller was the first, the
engine failed, or the time limit has stopped the command. -/
inductive Decided (T : Timeline) : Instant → Execution.Result → Prop
  | cancelledOpening {c : Instant} (cancel : T.cancel = some c) (started : T.start < c)
      (before : c < T.opened) : Decided T c (.error .cancelled)
  | unopened {e : EngineError} (wanted : (T.opened : ℕ∞) < T.cancels)
      (fails : T.session = .error e) : Decided T T.opened (.error (.exec e))
  | cancelled {exec : ExecId} {c : Instant} (wanted : (T.opened : ℕ∞) < T.cancels)
      (opens : T.session = .ok exec) (cancel : T.cancel = some c)
      (first : (c : ℕ∞) < min T.ended T.closes) : Decided T c (.error .cancelled)
  | failed {exec : ExecId} {t : Instant} {e : EngineError} (wanted : (T.opened : ℕ∞) < T.cancels)
      (opens : T.session = .ok exec) (ends : T.ending = some (t, .error e))
      (inTime : (t : ℕ∞) ≤ T.closes) (first : (t : ℕ∞) < T.cancels) :
      Decided T t (.error (.output e))
  | stopped {exec : ExecId} {x : Instant} (wanted : (T.opened : ℕ∞) < T.cancels)
      (opens : T.session = .ok exec) (closes : T.closes = (x : ℕ∞)) (late : (x : ℕ∞) < T.ended)
      (first : (x : ℕ∞) < T.cancels) :
      Decided T x (.ok (T.stopped x (T.captured (T.arrived x))))

/-- **Where the race is decided without an exit code, that is the result,** and the engine was asked
for the command only. -/
theorem Decided.yields {r : Execution.Result} (h : T.Decided t r) : T.Yields t r [T.command] := by
  cases h with
  | cancelledOpening cancel started before =>
    exact (Leads.single (advance_begin_cancel cancel started before)).yields
  | unopened wanted fails => exact (Leads.single (advance_begin_error wanted fails)).yields
  | cancelled wanted opens cancel first =>
    have ho : T.opened < t := Nat.cast_lt.1 (cancels_eq cancel ▸ wanted)
    obtain ⟨hT, hX⟩ := lt_min_iff.1 first
    obtain ⟨rest, hleads⟩ := leads_cancelled cancel ho hT hX
    exact ((leads_opening wanted opens).trans hleads).yields
  | failed wanted opens ends inTime first =>
    exact ((leads_opening wanted opens).trans (leads_failure ends inTime first)).yields
  | stopped wanted opens closes late first =>
    obtain ⟨rest, hleads⟩ := leads_timeout closes late first
    exact ((leads_opening wanted opens).trans hleads).yields

/-- The race that is decided so has begun. -/
theorem Decided.starts {r : Execution.Result} (h : T.Decided t r) :
    (T.start : ℕ∞) < T.cancels := by
  cases h with
  | cancelledOpening cancel started _ => exact cancels_eq cancel ▸ Nat.cast_lt.2 started
  | unopened wanted _ => exact start_lt_cancels wanted
  | cancelled wanted _ _ _ => exact start_lt_cancels wanted
  | failed wanted _ _ _ _ => exact start_lt_cancels wanted
  | stopped wanted _ _ _ _ => exact start_lt_cancels wanted

/-- **The outcome of the race.** An execution that is cancelled before it starts asks the engine for
nothing; one that is cancelled while its command is being opened asks for no more than that; a
command that cannot be opened is a failure. Once it is open, whatever comes first wins: a
cancellation is a failure, without asking for the exit code; the end of the output, also when the
time is just over, is a failure or lets the exit code be asked for; and a command that closes is
stopped with what has arrived by then. -/
theorem race_outcome (T : Timeline) :
    (T.cancels < T.start → T.Yields T.start (.error .cancelled) []) ∧
    (∀ c, T.cancel = some c → T.start < c → c < T.opened →
      T.Yields c (.error .cancelled) [T.command]) ∧
    (T.opened < T.cancels → ∀ e, T.session = .error e →
      T.Yields T.opened (.error (.exec e)) [T.command]) ∧
    (T.opened < T.cancels → ∀ exec, T.session = .ok exec →
      (∀ c, T.cancel = some c → c < min T.ended T.closes →
        T.Yields c (.error .cancelled) [T.command]) ∧
      (∀ t e, T.ending = some (t, .error e) → t ≤ T.closes → t < T.cancels →
        T.Yields t (.error (.output e)) [T.command]) ∧
      (∀ t, T.ending = some (t, .ok ()) → t ≤ T.closes → t < T.cancels →
        T.Inspects t exec (T.captured T.frames)) ∧
      (∀ x : Instant, T.closes = (x : ℕ) → x < T.ended → x < T.cancels →
        T.Yields x (.ok (T.stopped x (T.captured (T.arrived x)))) [T.command])) ∧
    (T.deadline = ⊤ → ∀ n o, (T.run n).progress = .finished (.ok o) → o.timedOut = false) := by
  refine ⟨fun h => ?_, fun c hc hs ho => ?_, fun h e he => ?_, fun h exec he => ⟨fun c hc hlt => ?_,
    fun t e hend hX hc => ?_, fun t hend hX hc => ?_, fun x hX hT hc => ?_⟩,
    fun h n o ho => not_timedOut h n ho⟩
  · exact Leads.yields ⟨0, begin_cancelled h⟩
  · exact (Decided.cancelledOpening hc hs ho).yields
  · exact (Decided.unopened h he).yields
  · exact (Decided.cancelled h he hc hlt).yields
  · exact (Decided.failed h he hend hX hc).yields
  · exact ((leads_opening h he).trans (leads_inspecting hend hX hc)).inspects
  · exact (Decided.stopped h he hX hT hc).yields

/-- A command that is open only when its time is over, and whose output never ends. -/
def lateCommand : Timeline where
  container := ⟨"c1"⟩
  argv := ["sh"]
  limit := .ofMillis 100
  cap := 1
  start := 5
  cancel := none
  opened := 150
  session := .ok ⟨"e1"⟩
  frames := [(150, .stderr [97, 98]), (151, .stdout [99])]
  ending := none
  codes := []
  ordered := by decide

/-- The output that arrives with the answer is kept, and the notice comes after the marker. -/
theorem race_outcome_lateCommand :
    lateCommand.Yields 150
      (.ok ⟨"", "a...[truncated]\nExecution timed out.", 124, .ofMillis 145, 0, true⟩)
      [.exec ⟨"c1"⟩ ["sh"]] := by
  have hafter : Instant.after? 5 (.ofMillis 100) = some 105 := by decide
  have hcloses : lateCommand.closes = (150 : ℕ) := by
    simp only [closes, lateCommand, hafter]
    rfl
  have hstopped : lateCommand.stopped 150 (lateCommand.captured (lateCommand.arrived 150)) =
      ⟨"", "a...[truncated]\nExecution timed out.", 124, .ofMillis 145, 0, true⟩ := by
    decide +kernel
  obtain ⟨_, _, _, hopen, _⟩ := race_outcome lateCommand
  obtain ⟨_, _, _, htimeout⟩ := hopen (WithTop.coe_lt_top _) ⟨"e1"⟩ rfl
  rw [← hstopped]
  exact htimeout 150 hcloses (WithTop.coe_lt_top _) (WithTop.coe_lt_top _)

end Timeline

end Isolate
