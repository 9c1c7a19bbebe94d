import Isolate.Proofs.Config.Validity
import Isolate.Proofs.Number.Exact

/-!
# The wall-clock limit of a request

The limit comes from the first of four places that sets one: the request, the profile of its
language, the fallback of the configuration and a last resort. Which place that is depends on the
exact values of the numbers of seconds.

* `Limits`: the rule, which names the place and the limit; `limits_timeLimit`, `Limits.eq`: it is the
  rule by which the limit is chosen;
* `Limits.origin_profile`, `Limits.origin_fallback`: in an accepted configuration no positive number
  is passed over;
* `RoundsToZero`, `timeLimit_eq_zero`: when a positive number still leaves no time at all.
-/

namespace Isolate

/-- A positive number of seconds that is half a nanosecond at most. -/
def Binary64.RoundsToZero (x : Binary64) : Prop :=
  ∃ q, x.exact = .rational q ∧ 0 < q ∧ q ≤ 1 / 2000000000

/-- These are the numbers of seconds that set no time at all as a limit. -/
theorem Binary64.sets_zero {x : Binary64} : x.Sets .zero ↔ x.RoundsToZero := by
  refine exists_congr fun q => and_congr_right fun _ => and_congr_right fun hpos => ?_
  rw [Duration.rounds_zero_iff hpos.le, nanosPerSecond, Nat.cast_ofNat, le_div_iff₀ (by norm_num),
    le_div_iff₀ (by norm_num)]
  constructor <;> intro h <;> linarith

theorem Duration.isZero_iff {d : Duration} : d.isZero = true ↔ d = .zero := by
  rw [isZero, beq_iff_eq]
  exact ⟨fun h => by cases d; cases h; rfl, fun h => h ▸ rfl⟩

namespace Config

/-- The request sets no limit: it names none, or no time at all. -/
def Unset (override : Option Duration) : Prop := ∀ d ∈ override, d = .zero

/-- Where a limit comes from. -/
inductive LimitOrigin where
  | request
  | profile
  | fallback
  | lastResort
  deriving DecidableEq

variable {c : Config} {p : Profile} {override : Option Duration} {origin : LimitOrigin}
  {d : Duration} {id : String}

/-- The rule for the limit of a request. -/
inductive Limits (c : Config) (p : Profile) (override : Option Duration) :
    LimitOrigin → Duration → Prop
  | request {d : Duration} (given : override = some d) (nonzero : d ≠ .zero) :
      Limits c p override .request d
  | profile {x : Binary64} {d : Duration} (unset : Unset override) (own : p.time = some x)
      (sets : x.Sets d) : Limits c p override .profile d
  | fallback {d : Duration} (unset : Unset override) (without : ∀ x ∈ p.time, ∀ d, ¬ x.Sets d)
      (sets : c.fallbackTime.Sets d) : Limits c p override .fallback d
  | lastResort (unset : Unset override) (without : ∀ x ∈ p.time, ∀ d, ¬ x.Sets d)
      (noFallback : ∀ d, ¬ c.fallbackTime.Sets d) :
      Limits c p override .lastResort (.ofWholeSeconds 5)

/-! ### The rule and the choice -/

theorem filter_eq_none : override.filter (!·.isZero) = none ↔ Unset override := by
  simp [Option.filter_eq_none_iff, Unset, Duration.isZero_iff]

theorem ownTimeLimit_eq_some : p.ownTimeLimit = some d ↔ ∃ x ∈ p.time, x.Sets d := by
  rw [Profile.ownTimeLimit, Option.bind_eq_some_iff]
  exact exists_congr fun x => and_congr_right fun _ => Duration.ofPositiveSeconds?_eq_some

theorem ownTimeLimit_eq_none : p.ownTimeLimit = none ↔ ∀ x ∈ p.time, ∀ d, ¬ x.Sets d := by
  rw [Option.eq_none_iff_forall_ne_some]
  simp only [ne_eq, ownTimeLimit_eq_some, not_exists, not_and]
  exact ⟨fun h x hx d => h d x hx, fun h d x hx => h x hx d⟩

/-- A request that sets no limit leaves it to the profile, and then to the fallback. -/
theorem timeLimit_of_unset (unset : Unset override) :
    c.timeLimit p override = p.ownTimeLimit.getD c.fallbackLimit := by
  rw [timeLimit, filter_eq_none.2 unset, Option.none_or]

/-- Every limit that the rule allows is the one that is chosen. -/
theorem Limits.eq (h : c.Limits p override origin d) : d = c.timeLimit p override := by
  cases h with
  | request given nonzero =>
    have hkept : (some d).filter (!·.isZero) = some d := by
      refine Option.filter_some_pos ?_
      rw [Bool.not_eq_true', ← Bool.not_eq_true, Duration.isZero_iff]
      exact nonzero
    rw [timeLimit, given, hkept, Option.some_or, Option.getD_some]
  | profile unset own sets =>
    rw [timeLimit_of_unset unset, ownTimeLimit_eq_some.2 ⟨_, own, sets⟩, Option.getD_some]
  | fallback unset without sets =>
    rw [timeLimit_of_unset unset, ownTimeLimit_eq_none.2 without, Option.getD_none, fallbackLimit,
      Duration.ofPositiveSeconds?_eq_some.2 sets, Option.getD_some]
  | lastResort unset without noFallback =>
    have hnone : Duration.ofPositiveSeconds? c.fallbackTime = none :=
      Option.eq_none_iff_forall_ne_some.2 fun d h =>
        noFallback d (Duration.ofPositiveSeconds?_eq_some.1 h)
    rw [timeLimit_of_unset unset, ownTimeLimit_eq_none.2 without, Option.getD_none, fallbackLimit,
      hnone, Option.getD_none, lastResortTime]

/-- Without a limit of the request, the rule goes on to the profile and beyond. -/
theorem limits_of_unset (c : Config) (p : Profile) (unset : Unset override) :
    ∃ origin d, c.Limits p override origin d := by
  by_cases hown : ∃ x ∈ p.time, ∃ d, x.Sets d
  · obtain ⟨x, hx, d, sets⟩ := hown
    exact ⟨_, d, .profile unset hx sets⟩
  · have without : ∀ x ∈ p.time, ∀ d, ¬ x.Sets d :=
      fun x hx d sets => hown ⟨x, hx, d, sets⟩
    by_cases hfallback : ∃ d, c.fallbackTime.Sets d
    · obtain ⟨d, sets⟩ := hfallback
      exact ⟨_, d, .fallback unset without sets⟩
    · exact ⟨_, _, .lastResort unset without (not_exists.1 hfallback)⟩

/-- The rule always has an answer, which is the limit that is chosen. -/
theorem limits_timeLimit (c : Config) (p : Profile) (override : Option Duration) :
    ∃ origin, c.Limits p override origin (c.timeLimit p override) := by
  have hex : ∃ origin d, c.Limits p override origin d := by
    by_cases unset : Unset override
    · exact limits_of_unset c p unset
    · obtain ⟨d, given, nonzero⟩ : ∃ d ∈ override, d ≠ .zero := by
        simpa only [Unset, not_forall, exists_prop] using unset
      exact ⟨_, d, .request given nonzero⟩
  obtain ⟨origin, d, h⟩ := hex
  exact ⟨origin, h.eq ▸ h⟩

/-! ### Accepted configurations -/

/-- A positive number of seconds in a profile is the one that counts. -/
theorem Limits.origin_profile (h : c.Limits p override origin d) (valid : p.Valid)
    (unset : Unset override) (positive : ∃ x ∈ p.time, x.exact.Positive) : origin = .profile := by
  obtain ⟨x, hx, hpos⟩ := positive
  obtain ⟨d', sets⟩ := Binary64.exists_sets (valid.time x hx) hpos
  cases h with
  | request given nonzero => exact absurd (unset _ given) nonzero
  | profile _ _ _ => rfl
  | fallback _ without _ => exact absurd sets (without x hx d')
  | lastResort _ without _ => exact absurd sets (without x hx d')

/-- Where the profile has no positive number, a positive fallback is the one that counts. -/
theorem Limits.origin_fallback (h : c.Limits p override origin d) (valid : c.Valid)
    (unset : Unset override) (without : ∀ x ∈ p.time, ¬ x.exact.Positive)
    (positive : c.fallbackTime.exact.Positive) : origin = .fallback := by
  cases h with
  | request given nonzero => exact absurd (unset _ given) nonzero
  | profile _ own sets => exact absurd sets.positive (without _ own)
  | fallback _ _ _ => rfl
  | lastResort _ _ noFallback =>
    obtain ⟨d', sets⟩ := Binary64.exists_sets valid.fallbackTime positive
    exact absurd sets (noFallback d')

/-- **The limit of a request, for all numbers of seconds.** For every configuration, valid or not,
the chosen limit is the one that the rule allows. In an accepted configuration, a request without a
limit gets that of its profile if the number there is positive; else that of the fallback if that is
positive; and the last resort only if it is not. -/
theorem limit_of_request (c : Config) (p : Profile) (override : Option Duration) :
    (∀ d, d = c.timeLimit p override ↔ ∃ origin, c.Limits p override origin d) ∧
      (c.firstDefect = none → ∀ id, (id, p) ∈ c.languages → ∀ origin d,
        c.Limits p override origin d →
          (Unset override → (∃ x ∈ p.time, x.exact.Positive) → origin = .profile) ∧
          (Unset override → (∀ x ∈ p.time, ¬ x.exact.Positive) →
            c.fallbackTime.exact.Positive → origin = .fallback) ∧
          (origin = .lastResort → ¬ c.fallbackTime.exact.Positive)) := by
  constructor
  · intro d
    refine ⟨?_, fun ⟨origin, h⟩ => h.eq⟩
    rintro rfl
    exact limits_timeLimit c p override
  · intro accepted id known origin d h
    have valid := firstDefect_eq_none.1 accepted
    refine ⟨h.origin_profile (valid.languages _ known), h.origin_fallback valid, ?_⟩
    rintro rfl positive
    obtain ⟨d', sets⟩ := Binary64.exists_sets valid.fallbackTime positive
    cases h with
    | lastResort _ _ noFallback => exact noFallback d' sets

/-- One language with three tenths of a second and one without a number; the fallback is a tenth of
a nanosecond. -/
def hasty : Config where
  fallbackTime := ⟨0x3DDB7CDFD9D7BDBB⟩
  languages := [("timed", ⟨"alpine", ⟨"hasty.sh", by decide⟩, none, ["sh"], none,
      some ⟨0x3FD3333333333333⟩⟩),
    ("untimed", ⟨"alpine", ⟨"hasty.sh", by decide⟩, none, ["sh"], none, none⟩)]

theorem limit_of_request_timed : ∃ p x, hasty.firstDefect = none ∧
    ("timed", p) ∈ hasty.languages ∧ p.time = some x ∧ x.exact.Positive ∧ Unset (some .zero) ∧
    (hasty.timeLimit p (some .zero)).nanos = 300000000 ∧
    hasty.Limits p (some .zero) .profile (hasty.timeLimit p (some .zero)) := by
  have known : ("timed", _) ∈ hasty.languages := List.mem_cons_self
  have positive : (⟨0x3FD3333333333333⟩ : Binary64).exact.Positive :=
    Binary64.isPositive_iff.1 (by decide)
  have unset : Unset (some .zero) := by simp [Unset]
  obtain ⟨choice, places⟩ := limit_of_request hasty _ (some .zero)
  obtain ⟨origin, h⟩ := (choice _).1 rfl
  obtain rfl := (places (by decide) _ known _ _ h).1 unset ⟨_, rfl, positive⟩
  exact ⟨_, _, by decide, known, rfl, positive, unset, by decide, h⟩

/-! ### No time at all -/

/-- **When a request gets no time at all.** In an accepted configuration that is so precisely if the
request sets no limit and the number of seconds that counts is positive but half a nanosecond at
most. -/
theorem timeLimit_eq_zero (accepted : c.firstDefect = none) (known : (id, p) ∈ c.languages) :
    c.timeLimit p override = .zero ↔ Unset override ∧
      ((∃ x ∈ p.time, x.RoundsToZero) ∨
        (∀ x ∈ p.time, ¬ x.exact.Positive) ∧ c.fallbackTime.RoundsToZero) := by
  have valid := firstDefect_eq_none.1 accepted
  constructor
  · intro hzero
    obtain ⟨origin, h⟩ := limits_timeLimit c p override
    rw [hzero] at h
    generalize hd : Duration.zero = d at h
    cases h with
    | request _ nonzero => exact absurd hd.symm nonzero
    | profile unset own sets =>
      exact ⟨unset, Or.inl ⟨_, own, Binary64.sets_zero.1 (hd ▸ sets)⟩⟩
    | fallback unset without sets =>
      refine ⟨unset, Or.inr ⟨fun x hx hpos => ?_, Binary64.sets_zero.1 (hd ▸ sets)⟩⟩
      obtain ⟨d', hsets⟩ := Binary64.exists_sets ((valid.languages _ known).time x hx) hpos
      exact without x hx d' hsets
    | lastResort _ _ _ => exact absurd hd (by decide)
  · rintro ⟨unset, ⟨x, hx, hx'⟩ | ⟨without, hfallback⟩⟩
    · exact (Limits.profile unset hx (Binary64.sets_zero.2 hx')).eq.symm
    · exact (Limits.fallback unset (fun x hx d sets => without x hx sets.positive)
        (Binary64.sets_zero.2 hfallback)).eq.symm

theorem timeLimit_eq_zero_untimed : ∃ p, hasty.firstDefect = none ∧
    ("untimed", p) ∈ hasty.languages ∧ Unset none ∧ p.time = none ∧
    hasty.fallbackTime.RoundsToZero ∧ hasty.timeLimit p none = .zero := by
  have known : ("untimed", _) ∈ hasty.languages := List.mem_cons_of_mem _ List.mem_cons_self
  have unset : Unset none := nofun
  have tiny : hasty.fallbackTime.RoundsToZero :=
    Binary64.sets_zero.1 (Duration.ofPositiveSeconds?_eq_some.1 (by decide +kernel))
  exact ⟨_, by decide, known, unset, rfl, tiny,
    (timeLimit_eq_zero (by decide) known).2 ⟨unset, Or.inr ⟨nofun, tiny⟩⟩⟩

end Config

end Isolate
