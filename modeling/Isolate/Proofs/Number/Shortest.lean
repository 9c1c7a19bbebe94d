import Isolate.Proofs.Number.Exact

/-!
# Shortest decimals

The decimal that is written for a double is found by going through coarse grids first. Whatever grid
it is found on, it lies among the numbers that are nearest to the double, so who reads it to the
nearest double gets that double back.

* `Binary64.IsNearest`, `IsNearest.unique`: the double nearest to a number;
* `Binary64.Canonical`: the significands and exponents of doubles; `Canonical.succ_le`,
  `Canonical.le_pred`: how far they lie apart;
* `RoundingInterval.Contains`, `isNearest_of_contains`: the numbers that are nearest to a double;
* `contains_shortest`, `isNearest_shortest`: the shortest decimal is one of them.
-/

namespace Isolate

namespace Binary64

/-! ### The nearest double -/

/-- The double is the one with this sign that is nearest to the magnitude; of two that are equally
near it is the one with the even significand. -/
def IsNearest (x : Binary64) (negative : Bool) (q : ℚ) : Prop :=
  ∃ m e, x.reading = .finite negative m e ∧
    ∀ y, y ≠ x → ∀ m' e', y.reading = .finite negative m' e' →
      |q - m * 2 ^ e| < |q - m' * 2 ^ e'| ∨
        |q - m * 2 ^ e| = |q - m' * 2 ^ e'| ∧ Even m ∧ Odd m'

variable {x y : Binary64} {negative : Bool} {q : ℚ} {m m' : ℕ} {e e' : ℤ}

theorem IsNearest.unique (hx : x.IsNearest negative q) (hy : y.IsNearest negative q) : x = y := by
  obtain ⟨m, e, hm, hx⟩ := hx
  obtain ⟨m', e', hm', hy⟩ := hy
  by_contra hne
  rcases hx y (Ne.symm hne) m' e' hm' with hlt | ⟨heq, heven, -⟩
  · rcases hy x hne m e hm with hlt' | ⟨heq', -, -⟩
    · exact lt_asymm hlt hlt'
    · exact hlt.ne heq'.symm
  · rcases hy x hne m e hm with hlt' | ⟨-, -, hodd⟩
    · exact hlt'.ne heq.symm
    · exact Nat.not_even_iff_odd.2 hodd heven

/-! ### Significands and exponents -/

/-- The significand and the exponent of a double: only at the least exponent is the highest bit of
the significand not set. -/
structure Canonical (m : ℕ) (e : ℤ) : Prop where
  significand_lt : m < 2 ^ 53
  exponent_ge : -1074 ≤ e
  normal : -1074 < e → 2 ^ 52 ≤ m

theorem fractionField_lt (x : Binary64) : x.fractionField < 2 ^ 52 := Nat.mod_lt _ (by decide)

/-- The fields of a finite double. -/
theorem fields_of_reading (hx : x.reading = .finite negative m e) : x.signBit = negative ∧
    (x.exponentField = 0 ∧ m = x.fractionField ∧ e = -1074 ∨
      0 < x.exponentField ∧ m = fractionWeight + x.fractionField ∧ e = x.exponentField - 1075) := by
  unfold reading at hx
  dsimp only at hx
  split_ifs at hx with hmax hzero hmin <;> cases hx
  · exact ⟨rfl, .inl ⟨hmin, rfl, rfl⟩⟩
  · exact ⟨rfl, .inr ⟨Nat.pos_of_ne_zero hmin, rfl, rfl⟩⟩

theorem canonical_of_reading (hx : x.reading = .finite negative m e) : Canonical m e := by
  have hfraction := x.fractionField_lt
  obtain ⟨-, ⟨-, rfl, rfl⟩ | ⟨hpos, rfl, rfl⟩⟩ := fields_of_reading hx
  · exact ⟨hfraction.trans (by decide), le_rfl, fun h => absurd h (lt_irrefl _)⟩
  · rw [fractionWeight]
    exact ⟨by omega, by omega, fun _ => by omega⟩

/-- A double is made of its three fields. -/
theorem toNat_bits (x : Binary64) : x.bits.toNat =
    (if x.signBit then bound63 else 0) + (x.exponentField * fractionWeight + x.fractionField) := by
  have hsize : x.bits.toNat < 18446744073709551616 := x.bits.toNat_lt
  unfold signBit exponentField fractionField bound63 fractionWeight
  split_ifs with h <;> simp only [decide_eq_true_eq] at h <;> omega

/-- A double is its sign, its significand and its exponent. -/
theorem eq_of_reading (hx : x.reading = .finite negative m e)
    (hy : y.reading = .finite negative m e) : x = y := by
  have hbits : x.bits.toNat = y.bits.toNat := by
    have hx' := x.fractionField_lt
    have hy' := y.fractionField_lt
    obtain ⟨hsign, hx⟩ := fields_of_reading hx
    obtain ⟨hsign', hy⟩ := fields_of_reading hy
    rw [toNat_bits, toNat_bits y, hsign, hsign']
    unfold fractionWeight at *
    omega
  obtain ⟨bits⟩ := x
  obtain ⟨bits'⟩ := y
  rw [Binary64.mk.injEq, ← UInt64.toNat_inj]
  exact hbits

/-- At an exponent that is not greater, the number is a whole significand. -/
theorem exists_rescale (h : e ≤ e') (m : ℕ) : ∃ k : ℕ, e' = e + k ∧
    (m : ℚ) * 2 ^ e' = (m * 2 ^ k : ℕ) * 2 ^ e := by
  obtain ⟨k, rfl⟩ := Int.le.dest h
  refine ⟨k, rfl, ?_⟩
  push_cast
  rw [zpow_add₀ two_ne_zero, zpow_natCast]
  ring

/-- The double that follows a double lies one unit of its last place above it. -/
theorem Canonical.succ_le (h : Canonical m e) (h' : Canonical m' e')
    (hlt : (m : ℚ) * 2 ^ e < m' * 2 ^ e') : ((m : ℚ) + 1) * 2 ^ e ≤ m' * 2 ^ e' := by
  have hunit : (0 : ℚ) < 2 ^ e := by positivity
  rcases le_or_gt e e' with hle | hgt
  · obtain ⟨k, -, hscaled⟩ := exists_rescale hle m'
    rw [hscaled] at hlt ⊢
    have : m < m' * 2 ^ k := by exact_mod_cast (mul_lt_mul_iff_left₀ hunit).1 hlt
    exact mul_le_mul_of_nonneg_right (by exact_mod_cast this) hunit.le
  · -- a number with a smaller exponent would be smaller
    obtain ⟨k, hk, hscaled⟩ := exists_rescale hgt.le m
    have hunit' : (0 : ℚ) < 2 ^ e' := by positivity
    rw [hscaled] at hlt
    have hlt : m * 2 ^ k < m' := by exact_mod_cast (mul_lt_mul_iff_left₀ hunit').1 hlt
    have hpow : 2 ^ 1 ≤ 2 ^ k := Nat.pow_le_pow_right two_pos (by omega)
    have hbig : 2 ^ 52 * 2 ^ 1 ≤ m * 2 ^ k :=
      Nat.mul_le_mul (h.normal (by have := h'.exponent_ge; omega)) hpow
    have := h'.significand_lt
    omega

theorem Canonical.unique (h : Canonical m e) (h' : Canonical m' e')
    (heq : (m : ℚ) * 2 ^ e = m' * 2 ^ e') : m = m' ∧ e = e' := by
  wlog hle : e ≤ e' generalizing m m' e e'
  · obtain ⟨hm, he⟩ := this h' h heq.symm (le_of_not_ge hle)
    exact ⟨hm.symm, he.symm⟩
  obtain ⟨k, hk, hscaled⟩ := exists_rescale hle m'
  have hunit : (2 : ℚ) ^ e ≠ 0 := by positivity
  rw [hscaled] at heq
  have heq : m = m' * 2 ^ k := by exact_mod_cast mul_right_cancel₀ hunit heq
  rcases Nat.eq_zero_or_pos k with rfl | hpos
  · exact ⟨by simpa using heq, by omega⟩
  · -- the significand would have too many bits
    have hpow : 2 ^ 1 ≤ 2 ^ k := Nat.pow_le_pow_right two_pos hpos
    have hbig : 2 ^ 52 * 2 ^ 1 ≤ m' * 2 ^ k :=
      Nat.mul_le_mul (h'.normal (by have := h.exponent_ge; omega)) hpow
    have := h.significand_lt
    omega

/-- How far the double before a double lies below it, in units of its last place. -/
def gapBelow (m : ℕ) (e : ℤ) : ℚ := if m = 2 ^ 52 ∧ -1074 < e then 1 / 2 else 1

theorem gapBelow_le_one (m : ℕ) (e : ℤ) : gapBelow m e ≤ 1 := by
  unfold gapBelow
  split_ifs <;> norm_num

/-- The double before a double lies one unit of its last place below it, but at a power of two only
half as far. -/
theorem Canonical.le_pred (h : Canonical m e) (h' : Canonical m' e')
    (hlt : (m' : ℚ) * 2 ^ e' < m * 2 ^ e) : (m' : ℚ) * 2 ^ e' ≤ (m - gapBelow m e) * 2 ^ e := by
  have hunit : (0 : ℚ) < 2 ^ e := by positivity
  rcases le_or_gt e e' with hle | hgt
  · obtain ⟨k, -, hscaled⟩ := exists_rescale hle m'
    rw [hscaled] at hlt ⊢
    have hlt : m' * 2 ^ k + 1 ≤ m := by exact_mod_cast (mul_lt_mul_iff_left₀ hunit).1 hlt
    have hlt : ((m' * 2 ^ k : ℕ) : ℚ) + 1 ≤ m := by exact_mod_cast hlt
    have hgap := gapBelow_le_one m e
    exact mul_le_mul_of_nonneg_right (by linarith) hunit.le
  · have hnormal : 2 ^ 52 ≤ m := h.normal (by have := h'.exponent_ge; omega)
    have hhalf : (2 : ℚ) ^ (e - 1) = 2 ^ e / 2 := by rw [zpow_sub_one₀ two_ne_zero]; ring
    have hpow : (2 : ℚ) ^ e' ≤ 2 ^ e / 2 :=
      hhalf ▸ zpow_le_zpow_right₀ one_le_two (by omega)
    have hm' : (m' : ℚ) + 1 ≤ 2 ^ 53 := by exact_mod_cast h'.significand_lt
    have hgap : (2 : ℚ) ^ 52 - 1 / 2 ≤ m - gapBelow m e := by
      unfold gapBelow
      split_ifs with hpower
      · rw [hpower.1]
        norm_num
      · have hgt : 2 ^ 52 + 1 ≤ m := by
          by_contra hnot
          exact hpower ⟨by omega, by have := h'.exponent_ge; omega⟩
        have : (2 : ℚ) ^ 52 + 1 ≤ m := by exact_mod_cast hgt
        linarith
    calc (m' : ℚ) * 2 ^ e' ≤ m' * (2 ^ e / 2) := mul_le_mul_of_nonneg_left hpow (by positivity)
      _ ≤ (2 ^ 53 - 1) * (2 ^ e / 2) :=
        mul_le_mul_of_nonneg_right (by linarith) (by positivity)
      _ = (2 ^ 52 - 1 / 2) * 2 ^ e := by ring
      _ ≤ (m - gapBelow m e) * 2 ^ e := mul_le_mul_of_nonneg_right hgap hunit.le

/-! ### The numbers nearest to a double -/

/-- The double that follows one with an even significand has an odd one. -/
theorem Canonical.odd_of_succ (h : Canonical m e) (h' : Canonical m' e') (heven : Even m)
    (heq : (m' : ℚ) * 2 ^ e' = (m + 1) * 2 ^ e) : Odd m' := by
  have hsucc : Canonical (m + 1) e := by
    obtain ⟨k, rfl⟩ := heven
    have := h.significand_lt
    exact ⟨by omega, h.exponent_ge, fun he => (h.normal he).trans (Nat.le_succ _)⟩
  rw [(h'.unique hsucc (by rw [heq]; push_cast; rfl)).1]
  exact heven.add_one

/-- The double before one with an even significand has an odd one. -/
theorem Canonical.odd_of_pred (h : Canonical m e) (h' : Canonical m' e') (heven : Even m)
    (heq : (m' : ℚ) * 2 ^ e' = (m - gapBelow m e) * 2 ^ e) : Odd m' := by
  unfold gapBelow at heq
  split_ifs at heq with hpower
  · have hpred : Canonical (2 ^ 53 - 1) (e - 1) :=
      ⟨by norm_num, by have := hpower.2; omega, fun _ => by norm_num⟩
    have hval : (m' : ℚ) * 2 ^ e' = (2 ^ 53 - 1 : ℕ) * 2 ^ (e - 1) := by
      rw [heq, hpower.1, zpow_sub_one₀ two_ne_zero]
      push_cast
      ring
    rw [(h'.unique hpred hval).1]
    decide
  · have hpos : 0 < m := by
      by_contra hzero
      have hneg : (m' : ℚ) * 2 ^ e' < 0 := by
        rw [heq, Nat.eq_zero_of_not_pos hzero]
        have : (0 : ℚ) < 2 ^ e := by positivity
        push_cast
        linarith
      exact absurd hneg (not_lt.2 (by positivity))
    have hpred : Canonical (m - 1) e := by
      have := h.significand_lt
      refine ⟨by omega, h.exponent_ge, fun he => ?_⟩
      have := h.normal he
      have : m ≠ 2 ^ 52 := fun hm => hpower ⟨hm, he⟩
      omega
    rw [(h'.unique hpred (by rw [heq, Nat.cast_pred hpos])).1]
    exact Nat.Even.sub_odd hpos heven odd_one

/-- Up to half a unit above a double, no greater double is nearer. -/
theorem Canonical.nearer_of_lt (h : Canonical m e) (h' : Canonical m' e')
    (hlt : (m : ℚ) * 2 ^ e < m' * 2 ^ e') (hq : q ≤ (m + 1 / 2) * 2 ^ e)
    (heven : q = (m + 1 / 2) * 2 ^ e → Even m) :
    |q - m * 2 ^ e| < |q - m' * 2 ^ e'| ∨
      |q - m * 2 ^ e| = |q - m' * 2 ^ e'| ∧ Even m ∧ Odd m' := by
  have hunit : (0 : ℚ) < 2 ^ e := by positivity
  have hsucc := h.succ_le h' hlt
  rw [abs_of_nonpos (show q - m' * 2 ^ e' ≤ 0 by linarith)]
  rcases hq.lt_or_eq with hinner | hend
  · exact .inl (abs_lt.2 ⟨by linarith, by linarith⟩)
  · rw [abs_of_nonneg (show 0 ≤ q - m * 2 ^ e by linarith)]
    rcases hsucc.lt_or_eq with hfar | hnext
    · exact .inl (by linarith)
    · exact .inr ⟨by linarith, heven hend, h.odd_of_succ h' (heven hend) hnext.symm⟩

/-- Down to half of what lies below a double, no smaller double is nearer. -/
theorem Canonical.nearer_of_gt (h : Canonical m e) (h' : Canonical m' e')
    (hgt : (m' : ℚ) * 2 ^ e' < m * 2 ^ e) (hq : (m - gapBelow m e / 2) * 2 ^ e ≤ q)
    (heven : q = (m - gapBelow m e / 2) * 2 ^ e → Even m) :
    |q - m * 2 ^ e| < |q - m' * 2 ^ e'| ∨
      |q - m * 2 ^ e| = |q - m' * 2 ^ e'| ∧ Even m ∧ Odd m' := by
  have hgap : 0 < gapBelow m e * 2 ^ e := by
    unfold gapBelow
    split_ifs <;> positivity
  have hpred := h.le_pred h' hgt
  rw [abs_of_nonneg (show 0 ≤ q - m' * 2 ^ e' by linarith)]
  rcases hq.lt_or_eq with hinner | hend
  · exact .inl (abs_lt.2 ⟨by linarith, by linarith⟩)
  · rw [abs_of_nonpos (show q - m * 2 ^ e ≤ 0 by linarith)]
    rcases hpred.lt_or_eq with hfar | hnext
    · exact .inl (by linarith)
    · exact .inr ⟨by linarith, heven hend.symm, h.odd_of_pred h' (heven hend.symm) hnext⟩

end Binary64

namespace Decimal

open Binary64

variable {i : RoundingInterval} {m num den c k n fuel : ℕ} {e g lead : ℤ} {q : ℚ}

/-- The number lies in the interval, with the given unit. -/
def RoundingInterval.Contains (i : RoundingInterval) (unit q : ℚ) : Prop :=
  if i.closed then i.low * unit ≤ q ∧ q ≤ i.high * unit else i.low * unit < q ∧ q < i.high * unit

/-- The upper end of the interval is half a unit above the double. -/
theorem high_roundingInterval (m : ℕ) (e : ℤ) :
    (roundingInterval m e).high * (2 ^ e / 4 : ℚ) = (m + 1 / 2) * 2 ^ e := by
  rw [roundingInterval]
  push_cast
  ring

/-- The lower end of the interval is halfway to the double before. -/
theorem low_roundingInterval (hm : 0 < m) (e : ℤ) :
    (roundingInterval m e).low * (2 ^ e / 4 : ℚ) = (m - gapBelow m e / 2) * 2 ^ e := by
  unfold roundingInterval gapBelow
  rw [show fractionWeight = 2 ^ 52 from rfl]
  dsimp only
  rw [Nat.cast_sub (by split_ifs <;> omega)]
  split_ifs <;> push_cast <;> ring

/-- **What lies in the rounding interval of a double is nearest to it.** -/
theorem isNearest_of_contains {x : Binary64} {negative : Bool}
    (hx : x.reading = .finite negative m e)
    (h : (roundingInterval m e).Contains (2 ^ e / 4) q) : x.IsNearest negative q := by
  have hbounds : (roundingInterval m e).low * (2 ^ e / 4) ≤ q ∧
      q ≤ (m + 1 / 2) * 2 ^ e ∧
      ((q = (roundingInterval m e).low * (2 ^ e / 4) ∨ q = (m + 1 / 2) * 2 ^ e) → Even m) := by
    rw [RoundingInterval.Contains, high_roundingInterval] at h
    split_ifs at h with hclosed
    · exact ⟨h.1, h.2, fun _ => Nat.even_iff.2 (by simpa [roundingInterval] using hclosed)⟩
    · exact ⟨h.1.le, h.2.le, fun hend => hend.elim (fun hq => absurd hq h.1.ne')
        fun hq => absurd hq h.2.ne⟩
  obtain ⟨hlow, hhigh, heven⟩ := hbounds
  refine ⟨m, e, hx, fun y hne m' e' hy => ?_⟩
  have hc := canonical_of_reading hx
  have hc' := canonical_of_reading hy
  have hval : (m : ℚ) * 2 ^ e ≠ m' * 2 ^ e' := by
    intro heq
    obtain ⟨rfl, rfl⟩ := hc.unique hc' heq
    exact hne (eq_of_reading hy hx)
  rcases lt_or_gt_of_ne hval with hlt | hgt
  · exact hc.nearer_of_lt hc' hlt hhigh fun hq => heven (.inr hq)
  · have hpos : 0 < m := by
      by_contra hzero
      rw [Nat.eq_zero_of_not_pos hzero, Nat.cast_zero, zero_mul] at hgt
      exact absurd hgt (not_lt.2 (by positivity))
    rw [low_roundingInterval hpos] at hlow heven
    exact hc.nearer_of_gt hc' hgt hlow fun hq => heven (.inl hq)

/-- Zero is nearest to itself. -/
theorem isNearest_zero {x : Binary64} {negative : Bool} (hx : x.reading = .finite negative 0 e) :
    x.IsNearest negative 0 := by
  refine isNearest_of_contains hx ?_
  have hunit : (0 : ℚ) < 2 ^ e := by positivity
  rw [RoundingInterval.Contains, high_roundingInterval]
  simp only [roundingInterval, mul_zero, Nat.zero_mod, decide_true, if_true, Nat.zero_sub,
    Nat.cast_zero, zero_mul, zero_add]
  exact ⟨le_rfl, by linarith⟩

/-- What is nearer to a double than half of what lies below it is in its interval. -/
theorem contains_of_near (hm : 0 < m) (h : |m * 2 ^ e - q| < gapBelow m e / 2 * 2 ^ e) :
    (roundingInterval m e).Contains (2 ^ e / 4) q := by
  have hunit : (0 : ℚ) < 2 ^ e := by positivity
  have hgap : gapBelow m e * 2 ^ e ≤ 2 ^ e :=
    mul_le_of_le_one_left hunit.le (gapBelow_le_one m e)
  obtain ⟨hlow, hhigh⟩ := abs_lt.1 h
  rw [RoundingInterval.Contains, low_roundingInterval hm, high_roundingInterval]
  split_ifs
  · exact ⟨by linarith, by linarith⟩
  · exact ⟨by linarith, by linarith⟩

/-! ### The search for a short decimal -/

/-- A power with any exponent is a quotient of two powers with natural ones. -/
theorem zpow_eq_div (b : ℕ) (hb : 0 < b) (g : ℤ) :
    (b : ℚ) ^ g = (b ^ g.toNat : ℕ) / (b ^ (-g).toNat : ℕ) := by
  have hb' : (b : ℚ) ≠ 0 := by exact_mod_cast hb.ne'
  push_cast
  rw [← zpow_natCast, ← zpow_natCast, ← zpow_sub₀ hb', Int.toNat_sub_toNat_neg]

theorem holds_iff (hden : 0 < den) : i.holds num den c g = true ↔
    i.Contains (num / den) (c * 10 ^ g) := by
  have hpow : ∀ n, Nat.pow 10 n = 10 ^ n := fun _ => rfl
  have hd : (0 : ℚ) < den := by exact_mod_cast hden
  have hg : (0 : ℚ) < (10 ^ (-g).toNat : ℕ) := by positivity
  have hten : (10 : ℚ) ^ g = (10 ^ g.toNat : ℕ) / (10 ^ (-g).toNat : ℕ) := by
    exact_mod_cast zpow_eq_div 10 (by decide) g
  have hle : ∀ n : ℕ, (n : ℚ) * (num / den) ≤ c * 10 ^ g ↔
      n * num * 10 ^ (-g).toNat ≤ c * 10 ^ g.toNat * den := by
    intro n
    rw [hten, ← mul_div_assoc, ← mul_div_assoc, div_le_div_iff₀ hd hg]
    exact_mod_cast Iff.rfl
  have hge : ∀ n : ℕ, (c : ℚ) * 10 ^ g ≤ n * (num / den) ↔
      c * 10 ^ g.toNat * den ≤ n * num * 10 ^ (-g).toNat := by
    intro n
    rw [hten, ← mul_div_assoc, ← mul_div_assoc, div_le_div_iff₀ hg hd]
    exact_mod_cast Iff.rfl
  unfold RoundingInterval.holds RoundingInterval.Contains
  simp only [hpow]
  split_ifs with hclosed
  · rw [Bool.and_eq_true, decide_eq_true_iff, decide_eq_true_iff, hle, hge]
  · rw [Bool.and_eq_true, decide_eq_true_iff, decide_eq_true_iff, ← not_le, ← not_le, ← hle, ← hge,
      not_le, not_le]

theorem holds_of_gridPoint (h : gridPoint i num den g = some c) : i.holds num den c g = true := by
  unfold gridPoint at h
  dsimp only at h
  split_ifs at h <;> simp_all

/-- A grid has a point in the interval if whatever is half a step away from the middle is in it. -/
theorem gridPoint_isSome (hden : 0 < den)
    (h : ∀ c : ℕ, |(i.value : ℚ) * (num / den) - c * 10 ^ g| ≤ 10 ^ g / 2 →
      i.Contains (num / den) (c * 10 ^ g)) : (gridPoint i num den g).isSome := by
  have hstep : (0 : ℚ) < 10 ^ g := by positivity
  have hquotient : ((i.value * num * Nat.pow 10 (-g).toNat : ℕ) : ℚ) /
      (den * Nat.pow 10 g.toNat : ℕ) = i.value * (num / den) / 10 ^ g := by
    have hten : (10 : ℚ) ^ g = (10 ^ g.toNat : ℕ) / (10 ^ (-g).toNat : ℕ) := by
      exact_mod_cast zpow_eq_div 10 (by decide) g
    have hpow : ∀ n, Nat.pow 10 n = 10 ^ n := fun _ => rfl
    rw [hten, hpow, hpow]
    push_cast
    field_simp
  have hpos : 0 < den * Nat.pow 10 g.toNat := Nat.mul_pos hden (Nat.pow_pos (by decide))
  have hnearest := (isNearestEven_div hpos (i.value * num * Nat.pow 10 (-g).toNat)).dist_le
  rw [hquotient] at hnearest
  have hscale : ∀ c : ℕ, |(i.value : ℚ) * (num / den) - c * 10 ^ g| =
      |(i.value : ℚ) * (num / den) / 10 ^ g - c| * 10 ^ g := by
    intro c
    have hsplit : (i.value : ℚ) * (num / den) - c * 10 ^ g =
        (i.value * (num / den) / 10 ^ g - c) * 10 ^ g := by field_simp
    rw [hsplit, abs_mul, abs_of_pos hstep]
  have hnear := mul_le_mul_of_nonneg_right hnearest hstep.le
  rw [← hscale, div_mul_eq_mul_div, one_mul] at hnear
  unfold gridPoint
  dsimp only
  rw [if_pos ((holds_iff hden).2 (h _ hnear))]
  rfl

/-- If any of the grids has a point, the one that is found lies in the interval. -/
theorem firstGrid_holds (hk : k < fuel) (h : (gridPoint i num den (lead - (n + k : ℕ))).isSome) :
    i.holds num den (firstGrid i num den lead fuel n).1 (firstGrid i num den lead fuel n).2 := by
  induction fuel generalizing n k with
  | zero => omega
  | succ fuel ih =>
    rw [firstGrid]
    cases hpoint : gridPoint i num den (lead - n) with
    | some c => exact holds_of_gridPoint hpoint
    | none =>
      cases k with
      | zero => simp [hpoint] at h
      | succ k =>
        rw [← Nat.add_assoc, Nat.add_right_comm] at h
        exact ih (Nat.lt_of_succ_lt_succ hk) h

theorem le_mul_pow_leadingZeros {bound : ℕ} (h : den ≤ num * 10 ^ bound) :
    den ≤ num * 10 ^ leadingZeros num den bound := by
  induction bound generalizing num with
  | zero => exact h
  | succ bound ih =>
    rw [leadingZeros]
    split_ifs with hle
    · simpa using hle
    · rw [pow_succ', ← mul_assoc]
      exact ih (by rwa [mul_assoc, ← pow_succ'])

/-- The leading digit's place is not beyond the fraction, unless the fraction is tiny. -/
theorem pow_floorLog10_le (hden : 0 < den) (h : den ≤ num * 10 ^ 400) :
    (10 : ℚ) ^ floorLog10 num den ≤ num / den := by
  have hd : (0 : ℚ) < den := by exact_mod_cast hden
  unfold floorLog10
  split_ifs with hle
  · obtain ⟨k, hk⟩ : ∃ k, (decimalDigits (num / den)).length = k + 1 :=
      ⟨_, (Nat.succ_pred_eq_of_pos Nat.length_toDigits_pos).symm⟩
    have hpow : 10 ^ k ≤ num / den := by
      rcases Nat.eq_zero_or_pos k with rfl | hpos
      · exact Nat.div_pos hle hden
      · by_contra hlt
        have := (Nat.length_toDigits_le_iff (by decide : 1 < 10) hpos).2 (not_le.1 hlt)
        rw [decimalDigits] at hk
        omega
    have hcast : ((10 ^ k : ℕ) : ℚ) ≤ (num / den : ℕ) := by exact_mod_cast hpow
    rw [hk, Nat.cast_succ, add_sub_cancel_right, zpow_natCast]
    exact_mod_cast hcast.trans Nat.cast_div_le
  · have hmul : (den : ℚ) ≤ num * 10 ^ leadingZeros num den 400 := by
      exact_mod_cast le_mul_pow_leadingZeros h
    rw [zpow_neg, zpow_natCast, le_div_iff₀ hd, inv_mul_le_iff₀ (by positivity), mul_comm]
    exact hmul

/-- The last place of seventeen digits is less than what lies below a double. -/
theorem place_lt (h : Canonical m e) (hq : q ≤ m * 2 ^ e) :
    q / 10 ^ 16 / 2 < gapBelow m e / 2 * 2 ^ e := by
  have hunit : (0 : ℚ) < 2 ^ e := by positivity
  have hgap : (m : ℚ) < gapBelow m e * 10 ^ 16 := by
    unfold gapBelow
    split_ifs with hpower
    · rw [hpower.1]
      norm_num
    · have : (m : ℚ) < 2 ^ 53 := by exact_mod_cast h.significand_lt
      norm_num at this ⊢
      linarith
  have := mul_lt_mul_of_pos_right hgap hunit
  rw [div_right_comm, div_lt_iff₀ (by positivity)]
  linarith

/-- The unit of the interval, a quarter of the last place. -/
theorem unit_shortest (e : ℤ) :
    ((Nat.pow 2 (e - 2).toNat : ℕ) : ℚ) / (Nat.pow 2 (2 - e).toNat : ℕ) = 2 ^ e / 4 := by
  have hpow : ∀ n, Nat.pow 2 n = 2 ^ n := fun _ => rfl
  have hquotient : (2 : ℚ) ^ (e - 2) = (2 ^ (e - 2).toNat : ℕ) / (2 ^ (-(e - 2)).toNat : ℕ) := by
    exact_mod_cast zpow_eq_div 2 (by decide) (e - 2)
  rw [neg_sub] at hquotient
  rw [hpow, hpow, ← hquotient, zpow_sub₀ two_ne_zero]
  norm_num

/-- The middle of the interval is the double. -/
theorem value_roundingInterval (m : ℕ) (e : ℤ) :
    (roundingInterval m e).value * (2 ^ e / 4 : ℚ) = m * 2 ^ e := by
  rw [roundingInterval]
  push_cast
  ring

/-- Doubles are not so small that the place of their leading digit is not found. -/
theorem pow_lead_le (h : Canonical m e) (hm : 0 < m) (hden : 0 < den)
    (hunit : (num / den : ℚ) = 2 ^ e / 4) :
    (10 : ℚ) ^ floorLog10 ((roundingInterval m e).value * num) den ≤ m * 2 ^ e := by
  have hd : (0 : ℚ) < den := by exact_mod_cast hden
  have hlarge : (1 : ℚ) ≤ m * 2 ^ e * 10 ^ 400 := by
    have hone : (1 : ℚ) ≤ m := by exact_mod_cast hm
    have hle : (2 : ℚ) ^ (-1074 : ℤ) ≤ 2 ^ e := zpow_le_zpow_right₀ one_le_two h.exponent_ge
    have hten : (2 : ℚ) ^ 1074 ≤ 10 ^ 400 := by
      exact_mod_cast (by decide +kernel : 2 ^ 1074 ≤ 10 ^ 400)
    calc (1 : ℚ) ≤ (2 ^ 1074)⁻¹ * 10 ^ 400 := by
          rwa [le_inv_mul_iff₀ (by positivity), mul_one]
      _ = 1 * 2 ^ (-1074 : ℤ) * 10 ^ 400 := by
          rw [one_mul, zpow_neg]
          rfl
      _ ≤ m * 2 ^ e * 10 ^ 400 := by gcongr
  rw [← value_roundingInterval, ← hunit, ← mul_div_assoc] at hlarge ⊢
  rw [div_mul_eq_mul_div, one_le_div hd] at hlarge
  exact_mod_cast pow_floorLog10_le hden (by exact_mod_cast hlarge)

/-- **The shortest decimal of a double lies in its rounding interval.** -/
theorem contains_shortest (h : Canonical m e) (hm : 0 < m) :
    (roundingInterval m e).Contains (2 ^ e / 4)
      ((shortest m e).significand * 10 ^ (shortest m e).exponent) := by
  have hunit := unit_shortest e
  have hden : 0 < Nat.pow 2 (2 - e).toNat := Nat.pow_pos two_pos
  unfold shortest
  dsimp only
  generalize Nat.pow 2 (e - 2).toNat = num at *
  generalize Nat.pow 2 (2 - e).toNat = den at *
  have hlead := pow_lead_le h hm hden hunit
  rw [← hunit, ← holds_iff hden]
  -- the last grid, of seventeen digits, has a point in the interval
  refine firstGrid_holds (show 16 < 17 by decide) (gridPoint_isSome hden fun c hc => ?_)
  rw [hunit, value_roundingInterval] at hc
  rw [hunit]
  refine contains_of_near hm (hc.trans_lt ?_)
  rw [zpow_sub₀ (by norm_num)]
  exact_mod_cast place_lt h hlead

/-- **Who reads the shortest decimal of a double to the nearest double gets it back.** -/
theorem isNearest_shortest {x : Binary64} {negative : Bool}
    (hx : x.reading = .finite negative m e) (hm : 0 < m) :
    x.IsNearest negative ((shortest m e).significand * 10 ^ (shortest m e).exponent) :=
  isNearest_of_contains hx (contains_shortest (canonical_of_reading hx) hm)

/-- The shortest decimal of a positive double has a digit other than zero. -/
theorem significand_shortest_pos (h : Canonical m e) (hm : 0 < m) :
    0 < (shortest m e).significand := by
  have hcontains := contains_shortest h hm
  by_contra hzero
  rw [Nat.eq_zero_of_not_pos hzero, Nat.cast_zero, zero_mul, RoundingInterval.Contains,
    low_roundingInterval hm] at hcontains
  have hlow : (0 : ℚ) < (m - gapBelow m e / 2) * 2 ^ e := by
    have hone : (1 : ℚ) ≤ m := by exact_mod_cast hm
    have hgap : gapBelow m e ≤ 1 := gapBelow_le_one m e
    exact mul_pos (by linarith) (by positivity)
  split_ifs at hcontains
  · exact absurd hcontains.1 (not_le.2 hlow)
  · exact absurd hcontains.1 (not_lt.2 hlow.le)

end Decimal

end Isolate
