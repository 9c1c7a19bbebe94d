import Mathlib.Tactic
import Isolate.Config.Validity

/-!
# Numbers of seconds, exactly

A double stands for a rational number, for an infinity or for no number at all. What the limits on
time are made of is said here in terms of that value alone.

* `IsNearestEven`, `isNearestEven_div_iff`: rounding a fraction to the nearest natural number, where
  a half goes to the even neighbour;
* `Binary64.Exact`, `Binary64.exact`: the value of a double;
* `Duration.Rounds`: the duration is a rational number of seconds, rounded to nanoseconds;
* `Duration.ofSeconds_eq_ok`, `Duration.ofPositiveSeconds?_eq_some`: which doubles are durations and
  which of them set a limit;
* `Binary64.IsTimeSetting`, `isTimeSetting_iff`: which doubles may be given.
-/

namespace Isolate

/-! ### Rounding to the nearest -/

/-- The natural number is nearest to the fraction, and of two that are equally near it is the even
one. -/
def IsNearestEven (q : ℚ) (n : ℕ) : Prop := |q - n| < 1 / 2 ∨ |q - n| = 1 / 2 ∧ Even n

variable {q : ℚ} {m n : ℕ}

theorem IsNearestEven.dist_le (h : IsNearestEven q n) : |q - n| ≤ 1 / 2 :=
  h.elim le_of_lt fun h => h.1.le

/-- No number less than a nearest one is nearest too. -/
theorem IsNearestEven.le (hn : IsNearestEven q n) (hm : IsNearestEven q m) : n ≤ m := by
  by_contra hlt
  have hlt : (m : ℚ) + 1 ≤ n := by exact_mod_cast Nat.succ_le_of_lt (Nat.lt_of_not_le hlt)
  obtain ⟨hn₁, hn₂⟩ := abs_le.1 hn.dist_le
  obtain ⟨hm₁, hm₂⟩ := abs_le.1 hm.dist_le
  -- both are half a unit away, and so both would have to be even
  have hqn : q - n = -(1 / 2) := by linarith
  have hqm : q - m = 1 / 2 := by linarith
  have heven : Even n := by
    rcases hn with h | h
    · rw [hqn, abs_neg, abs_of_pos (by norm_num)] at h
      exact absurd h (lt_irrefl _)
    · exact h.2
  have heven' : Even m := by
    rcases hm with h | h
    · rw [hqm, abs_of_pos (by norm_num)] at h
      exact absurd h (lt_irrefl _)
    · exact h.2
  have hsucc : n = m + 1 := by
    have : (n : ℚ) = m + 1 := by linarith
    exact_mod_cast this
  rw [hsucc, Nat.even_add_one] at heven
  exact heven heven'

theorem IsNearestEven.unique (hn : IsNearestEven q n) (hm : IsNearestEven q m) : n = m :=
  le_antisymm (hn.le hm) (hm.le hn)

/-- The remainder of a division decides which of the two neighbours is nearest. -/
theorem isNearestEven_div {den : ℕ} (hden : 0 < den) (num : ℕ) :
    IsNearestEven (num / den) (divNearestEven num den) := by
  have hd : (0 : ℚ) < den := by exact_mod_cast hden
  have hsplit : (num : ℚ) / den = (num / den : ℕ) + (num % den : ℕ) / (den : ℚ) := by
    have h : (num : ℚ) = den * (num / den : ℕ) + (num % den : ℕ) := by
      exact_mod_cast (Nat.div_add_mod num den).symm
    field_simp
    linarith
  have hrem : (0 : ℚ) ≤ (num % den : ℕ) / (den : ℚ) := by positivity
  unfold divNearestEven
  dsimp only
  rw [IsNearestEven, hsplit]
  split_ifs with hlow hhigh
  · left
    rw [add_sub_cancel_left, abs_of_nonneg hrem, div_lt_div_iff₀ hd two_pos]
    exact_mod_cast by omega
  · left
    have hlt : (num % den : ℕ) / (den : ℚ) < 1 :=
      (div_lt_one hd).2 (by exact_mod_cast Nat.mod_lt num hden)
    have hhalf : 1 / 2 < (num % den : ℕ) / (den : ℚ) := by
      rw [div_lt_div_iff₀ two_pos hd]
      exact_mod_cast by omega
    push_cast
    rw [abs_lt]
    constructor <;> linarith
  · right
    have hhalf : (num % den : ℕ) / (den : ℚ) = 1 / 2 := by
      rw [div_eq_div_iff hd.ne' two_ne_zero]
      exact_mod_cast by omega
    rw [hhalf]
    rcases Nat.even_or_odd (num / den) with heven | hodd
    · rw [Nat.even_iff.1 heven, Nat.add_zero, add_sub_cancel_left, abs_of_pos (by norm_num)]
      exact ⟨rfl, heven⟩
    · rw [Nat.odd_iff.1 hodd]
      refine ⟨?_, hodd.add_one⟩
      push_cast
      rw [abs_of_nonpos (by linarith)]
      ring

theorem isNearestEven_div_iff {num den : ℕ} (hden : 0 < den) :
    IsNearestEven (num / den) n ↔ n = divNearestEven num den :=
  ⟨fun h => h.unique (isNearestEven_div hden num), fun h => h ▸ isNearestEven_div hden num⟩

/-- What is rounded to zero is half a unit at most. -/
theorem isNearestEven_zero_iff (hq : 0 ≤ q) : IsNearestEven q 0 ↔ q ≤ 1 / 2 := by
  rw [IsNearestEven, Nat.cast_zero, sub_zero, abs_of_nonneg hq, le_iff_lt_or_eq]
  simp

/-- Rounding does not lead below a natural number. -/
theorem IsNearestEven.le_of_le (h : IsNearestEven q n) (hm : (m : ℚ) ≤ q) : m ≤ n := by
  by_contra hlt
  have hlt : (n : ℚ) + 1 ≤ m := by exact_mod_cast Nat.succ_le_of_lt (Nat.lt_of_not_le hlt)
  have := (abs_le.1 h.dist_le).2
  linarith

/-! ### Values of doubles -/

namespace Binary64

/-- What a double stands for. -/
inductive Exact where
  | rational (q : ℚ)
  | infinite (negative : Bool)
  | nan
  deriving DecidableEq

/-- The value of a reading. -/
def Reading.exact : Reading → Exact
  | .finite negative m e => .rational ((if negative then -1 else 1) * (m * 2 ^ e))
  | .infinite negative => .infinite negative
  | .nan => .nan

/-- The value of a double. -/
def exact (x : Binary64) : Exact := x.reading.exact

/-- The value is greater than zero. -/
def Exact.Positive : Exact → Prop
  | .rational q => 0 < q
  | .infinite negative => negative = false
  | .nan => False

variable {x : Binary64} {e : ℤ}

theorem numerator_div_denominator (m : ℕ) (e : ℤ) :
    (numerator m e : ℚ) / denominator e = m * 2 ^ e := by
  have hpow : ∀ n : ℕ, Nat.pow 2 n = 2 ^ n := fun _ => rfl
  rw [numerator, denominator, hpow, hpow]
  push_cast
  rw [mul_div_assoc, ← zpow_natCast, ← zpow_natCast, ← zpow_sub₀ two_ne_zero,
    Int.toNat_sub_toNat_neg]

theorem denominator_pos (e : ℤ) : 0 < denominator e := Nat.pow_pos two_pos

theorem isFinite_iff : x.isFinite = true ↔ ∃ q, x.exact = .rational q := by
  unfold isFinite exact
  cases x.reading <;> simp [Reading.exact]

theorem isPositive_iff : x.isPositive = true ↔ x.exact.Positive := by
  unfold isPositive exact
  cases x.reading with
  | finite negative m e =>
    have hpow : (0 : ℚ) < 2 ^ e := by positivity
    cases negative with
    | true =>
      have : ¬ 0 < -(m * 2 ^ e : ℚ) := by
        rw [neg_pos, not_lt]
        positivity
      simpa [Reading.exact, Exact.Positive] using this
    | false => simp [Reading.exact, Exact.Positive, hpow, Nat.pos_iff_ne_zero]
  | infinite negative => simp [Reading.exact, Exact.Positive]
  | nan => simp [Reading.exact, Exact.Positive]

end Binary64

/-! ### Durations -/

namespace Duration

variable {x : Binary64} {d d' : Duration}

/-- The duration is a number of seconds, rounded to the nearest nanosecond with ties to even. As it
is a duration, its whole seconds are fewer than two to the sixty-fourth. -/
def Rounds (d : Duration) (q : ℚ) : Prop := IsNearestEven (q * nanosPerSecond) d.nanos

theorem Rounds.unique (h : d.Rounds q) (h' : d'.Rounds q) : d = d' := by
  cases d
  cases d'
  simpa using IsNearestEven.unique h h'

theorem rounds_zero_iff (hq : 0 ≤ q) : zero.Rounds q ↔ q * nanosPerSecond ≤ 1 / 2 :=
  isNearestEven_zero_iff (by positivity)

theorem ofNanos?_eq_some : ofNanos? n = some d ↔ d.nanos = n := by
  unfold ofNanos?
  split_ifs with h
  · rw [Option.some.injEq]
    exact ⟨fun h => h ▸ rfl, by rintro rfl; rfl⟩
  · refine ⟨nofun, ?_⟩
    rintro rfl
    exact absurd d.fits h

/-- A positive significand with an exponent within bounds is rounded as a fraction. -/
theorem ofSeconds_finite {m : ℕ} {e : ℤ} (hx : x.reading = .finite false m e) (hm : m ≠ 0) :
    ofSeconds x = .ok d ↔ d.Rounds (m * 2 ^ e) := by
  simp only [ofSeconds, hx, hm, if_false, Bool.false_eq_true]
  split_ifs with he
  · -- so many seconds are no duration
    refine ⟨nofun, fun h => ?_⟩
    have hpow : (2 : ℚ) ^ (64 : ℤ) ≤ 2 ^ e := zpow_le_zpow_right₀ one_le_two he
    have hone : (1 : ℚ) ≤ m := by exact_mod_cast Nat.one_le_iff_ne_zero.2 hm
    have hbound : ((18446744073709551616 * 1000000000 : ℕ) : ℚ) ≤
        m * 2 ^ e * nanosPerSecond := by
      have : (2 : ℚ) ^ (64 : ℤ) ≤ m * 2 ^ e := hpow.trans (le_mul_of_one_le_left (by positivity) hone)
      norm_num [nanosPerSecond] at this ⊢
      linarith
    exact absurd (IsNearestEven.le_of_le h hbound) (Nat.not_le.2 d.fits)
  · have hfrac : (m * 2 ^ e * nanosPerSecond : ℚ) =
        (Binary64.numerator m e * nanosPerSecond : ℕ) / (Binary64.denominator e : ℕ) := by
      rw [← Binary64.numerator_div_denominator]
      push_cast
      ring
    rw [Rounds, hfrac, isNearestEven_div_iff (Binary64.denominator_pos e), ← ofNanos?_eq_some]
    split <;> simp_all

/-- **A double is a duration if it is a number that is not negative and not too large;** the
duration is then the number of seconds, rounded to nanoseconds. -/
theorem ofSeconds_eq_ok :
    ofSeconds x = .ok d ↔ ∃ q, x.exact = .rational q ∧ 0 ≤ q ∧ d.Rounds q := by
  unfold Binary64.exact
  cases hx : x.reading with
  | finite negative m e =>
    simp only [Binary64.Reading.exact, Binary64.Exact.rational.injEq, exists_eq_left']
    by_cases hm : m = 0
    · have hzero : ofSeconds x = .ok zero := by simp [ofSeconds, hx, hm]
      have hround : zero.Rounds 0 := (rounds_zero_iff le_rfl).2 (by norm_num)
      rw [hzero, hm, Nat.cast_zero, zero_mul, mul_zero, Except.ok.injEq]
      exact ⟨fun h => h ▸ ⟨le_rfl, hround⟩, fun h => hround.unique h.2⟩
    · have hpos : (0 : ℚ) < m * 2 ^ e := by
        have : (0 : ℚ) < m := by exact_mod_cast Nat.pos_of_ne_zero hm
        positivity
      cases negative with
      | true =>
        have herror : ofSeconds x = .error .negative := by simp [ofSeconds, hx, hm]
        rw [herror, if_pos rfl]
        exact ⟨nofun, fun h => by linarith [h.1]⟩
      | false =>
        rw [ofSeconds_finite hx hm, if_neg (by decide), one_mul]
        exact ⟨fun h => ⟨hpos.le, h⟩, fun h => h.2⟩
  | infinite negative => cases negative <;> simp [ofSeconds, hx, Binary64.Reading.exact]
  | nan => simp [ofSeconds, hx, Binary64.Reading.exact]

end Duration

/-- The number of seconds sets the duration as a limit: it is positive, and the duration is what it
is rounded to. -/
def Binary64.Sets (x : Binary64) (d : Duration) : Prop :=
  ∃ q, x.exact = .rational q ∧ 0 < q ∧ d.Rounds q

variable {x : Binary64} {d : Duration}

theorem Binary64.Sets.positive (h : x.Sets d) : x.exact.Positive := by
  obtain ⟨q, hq, hpos, -⟩ := h
  rw [hq]
  exact hpos

/-- **Only a positive number of seconds that is not too large sets a limit.** -/
theorem Duration.ofPositiveSeconds?_eq_some : ofPositiveSeconds? x = some d ↔ x.Sets d := by
  unfold ofPositiveSeconds?
  split_ifs with hpos
  · have hok : (ofSeconds x).toOption = some d ↔ ofSeconds x = .ok d := by
      cases ofSeconds x <;> simp [Except.toOption]
    rw [hok, ofSeconds_eq_ok]
    refine exists_congr fun q => and_congr_right fun hq => and_congr_left fun _ => ?_
    rw [Binary64.isPositive_iff, hq] at hpos
    exact ⟨fun _ => hpos, le_of_lt⟩
  · refine ⟨nofun, fun h => ?_⟩
    exact absurd (Binary64.isPositive_iff.2 h.positive) hpos

/-- A number of seconds that may be given: a finite number that is not positive, or that is a
duration once it is rounded. -/
def Binary64.IsTimeSetting (x : Binary64) : Prop :=
  ∃ q, x.exact = .rational q ∧ (q ≤ 0 ∨ ∃ d : Duration, d.Rounds q)

/-- **What is accepted as a number of seconds is what may be given.** -/
theorem isTimeSetting_iff : isTimeSetting x = true ↔ x.IsTimeSetting := by
  have hok : (Duration.ofSeconds x).isOk = true ↔ ∃ d, Duration.ofSeconds x = .ok d := by
    cases Duration.ofSeconds x <;> simp [Except.isOk, Except.toBool]
  rw [isTimeSetting, Bool.and_eq_true, Binary64.isFinite_iff, Bool.or_eq_true, Bool.not_eq_true',
    ← Bool.not_eq_true, Binary64.isPositive_iff, hok]
  constructor
  · rintro ⟨⟨q, hq⟩, h⟩
    refine ⟨q, hq, ?_⟩
    rcases h with hneg | ⟨d, hd⟩
    · rw [hq] at hneg
      exact Or.inl (not_lt.1 hneg)
    · obtain ⟨q', hq', -, hround⟩ := Duration.ofSeconds_eq_ok.1 hd
      cases hq.symm.trans hq'
      exact Or.inr ⟨d, hround⟩
  · rintro ⟨q, hq, h⟩
    refine ⟨⟨q, hq⟩, ?_⟩
    rcases lt_or_ge 0 q with hpos | hneg
    · obtain ⟨d, hround⟩ := h.resolve_left (not_le.2 hpos)
      exact Or.inr ⟨d, Duration.ofSeconds_eq_ok.2 ⟨q, hq, hpos.le, hround⟩⟩
    · left
      rw [hq]
      exact not_lt.2 hneg

/-- A positive setting sets a limit. -/
theorem Binary64.exists_sets (h : isTimeSetting x = true) (hpos : x.exact.Positive) :
    ∃ d, x.Sets d := by
  obtain ⟨q, hq, h⟩ := isTimeSetting_iff.1 h
  rw [hq] at hpos
  obtain ⟨d, hround⟩ := h.resolve_left (not_le.2 hpos)
  exact ⟨d, q, hq, hpos, hround⟩

end Isolate
