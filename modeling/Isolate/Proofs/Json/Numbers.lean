import Mathlib.Data.List.TakeWhile
import Isolate.Json.Printer
import Isolate.Json.Reader
import Isolate.Proofs.Number.Shortest
import Isolate.Proofs.Result

/-!
# Numbers in JSON documents

A number is written as a numeral, and a numeral is read off the front of a text as a whole if the
text does not go on with it.

* `digitsValue_decimalDigits`, `digitsValue_append`, `stripZeros_append`: digits and their value;
* `Numeral.written`, `readNumeral_written`: a numeral is read as it is written;
* `exists_integer_eq`, `exists_float_eq`: an integer is written as a numeral that stands for it, a
  double as one that it is nearest to;
* `ReadsNearest`: the numeral of a double is read to the nearest double;
* `readNumber_integer`, `readNumber_float`: a number is read as it is written.
-/

namespace Isolate

/-! ### Digits -/

variable {c : Char} {ds rest : List Char} {n k : ℕ}

theorem isDecimalDigit_digitChar (h : k < 10) : isDecimalDigit k.digitChar = true := by
  interval_cases k <;> decide

theorem hexDigitValue?_digitChar (h : k < 10) : hexDigitValue? k.digitChar = some k := by
  interval_cases k <;> decide

theorem digitsValue_append (xs ys : List Char) : digitsValue 10 (xs ++ ys) =
    digitsValue 10 xs * 10 ^ ys.length + digitsValue 10 ys := by
  induction ys using List.reverseRecOn with
  | nil => simp [digitsValue]
  | append_singleton ys c ih =>
    have hconcat : ∀ zs : List Char, digitsValue 10 (zs ++ [c]) =
        digitsValue 10 zs * 10 + (hexDigitValue? c).getD 0 := fun zs => by simp [digitsValue]
    rw [← List.append_assoc, hconcat, hconcat, ih, List.length_append, List.length_singleton,
      pow_succ]
    ring

theorem digitsValue_zeros (k : ℕ) : digitsValue 10 (zeros k) = 0 := by
  induction k with
  | zero => rfl
  | succ k ih =>
    have hsplit : zeros (k + 1) = zeros k ++ ['0'] := List.replicate_succ'
    rw [hsplit, digitsValue_append, ih, zero_mul, zero_add]
    rfl

/-- The last digit stands after those of the tens. -/
theorem decimalDigits_eq (n : ℕ) : decimalDigits n =
    if n < 10 then [n.digitChar] else decimalDigits (n / 10) ++ [(n % 10).digitChar] :=
  Nat.toDigits_eq_if (by decide)

theorem digitsValue_decimalDigits (n : ℕ) : digitsValue 10 (decimalDigits n) = n := by
  induction n using Nat.strong_induction_on with
  | _ n ih =>
    rw [decimalDigits_eq]
    split_ifs with hlt
    · simp [digitsValue, hexDigitValue?_digitChar hlt]
    · rw [digitsValue_append, ih _ (by omega)]
      simp [digitsValue, hexDigitValue?_digitChar (Nat.mod_lt n (by decide : 0 < 10))]
      omega

theorem isDecimalDigit_of_mem (h : c ∈ decimalDigits n) : isDecimalDigit c = true := by
  induction n using Nat.strong_induction_on with
  | _ n ih =>
    rw [decimalDigits_eq] at h
    split_ifs at h with hlt
    · rw [List.mem_singleton.1 h]
      exact isDecimalDigit_digitChar hlt
    · rcases List.mem_append.1 h with hmem | hmem
      · exact ih _ (by omega) hmem
      · rw [List.mem_singleton.1 hmem]
        exact isDecimalDigit_digitChar (Nat.mod_lt _ (by decide))

/-- Digits that begin with another one than zero. -/
inductive Leading : List Char → Prop
  | intro {c : Char} {ds : List Char} (hc : isDecimalDigit c = true) (hzero : c ≠ '0')
      (hds : ∀ d ∈ ds, isDecimalDigit d = true) : Leading (c :: ds)

theorem Leading.isDecimalDigit (h : Leading ds) : ∀ d ∈ ds, isDecimalDigit d = true := by
  obtain ⟨hc, -, hds⟩ := h
  exact List.forall_mem_cons.2 ⟨hc, hds⟩

theorem Leading.append (h : Leading ds) (hrest : ∀ d ∈ rest, Isolate.isDecimalDigit d = true) :
    Leading (ds ++ rest) := by
  obtain ⟨hc, hzero, hds⟩ := h
  exact .intro hc hzero fun d hd => (List.mem_append.1 hd).elim (hds d) (hrest d)

/-- What is left of leading digits if some of the last ones are taken away. -/
theorem Leading.of_append (h : Leading (ds ++ rest)) (hds : ds ≠ []) : Leading ds := by
  obtain ⟨c, cs, rfl⟩ := List.exists_cons_of_ne_nil hds
  cases h with
  | intro hc hzero hall => exact .intro hc hzero fun d hd => hall d (List.mem_append_left _ hd)

theorem leading_decimalDigits (hn : 0 < n) : Leading (decimalDigits n) := by
  induction n using Nat.strong_induction_on with
  | _ n ih =>
    rw [decimalDigits_eq]
    split_ifs with hlt
    · refine .intro (isDecimalDigit_digitChar hlt) ?_ (by simp)
      interval_cases n <;> decide
    · refine (ih _ (by omega) (by omega)).append fun d hd => ?_
      rw [List.mem_singleton.1 hd]
      exact isDecimalDigit_digitChar (Nat.mod_lt _ (by decide))

/-- The zeros that are stripped off stood at the end. -/
theorem stripZeros_append (ds : List Char) :
    (stripZeros ds).1 ++ zeros (stripZeros ds).2 = ds := by
  have hsplit : (ds.reverse.dropWhile (· == '0')).reverse ++
      (ds.reverse.takeWhile (· == '0')).reverse = ds := by
    rw [← List.reverse_append, List.takeWhile_append_dropWhile, List.reverse_reverse]
  have hzeros : (ds.reverse.takeWhile (· == '0')).reverse =
      zeros (ds.reverse.takeWhile (· == '0')).reverse.length :=
    List.eq_replicate_iff.2 ⟨rfl, fun z hz => by
      simpa using List.mem_takeWhile_imp (List.mem_reverse.1 hz)⟩
  have hlength : ds.length - (ds.reverse.dropWhile (· == '0')).reverse.length =
      (ds.reverse.takeWhile (· == '0')).reverse.length := by
    have := congrArg List.length hsplit
    rw [List.length_append] at this
    omega
  unfold stripZeros
  dsimp only
  rw [hlength, ← hzeros, hsplit]

namespace Json

/-! ### Numerals -/

/-- A text that does not begin with a digit. -/
def NoDigit (cs : List Char) : Prop := ∀ c ∈ cs.head?, isDecimalDigit c = false

/-- A text that a numeral before it does not go on with. -/
def EndsNumeral (cs : List Char) : Prop :=
  ∀ c ∈ cs.head?, isDecimalDigit c = false ∧ c ≠ '.' ∧ c ≠ 'e' ∧ c ≠ 'E'

theorem EndsNumeral.noDigit (h : EndsNumeral rest) : NoDigit rest := fun c hc => (h c hc).1

theorem noDigit_cons (h : isDecimalDigit c = false) : NoDigit (c :: rest) := by
  simpa [NoDigit] using h

theorem readDigits_append (hne : ds ≠ []) (hds : ∀ d ∈ ds, isDecimalDigit d = true)
    (hrest : NoDigit rest) : readDigits (ds ++ rest) = .ok (ds, rest) := by
  have hstop : rest.takeWhile isDecimalDigit = [] ∧ rest.dropWhile isDecimalDigit = rest := by
    cases rest with
    | nil => exact ⟨rfl, rfl⟩
    | cons c cs =>
      have hc : isDecimalDigit c = false := hrest c rfl
      simp [hc]
  unfold readDigits
  dsimp only
  rw [List.takeWhile_append_of_pos hds, List.dropWhile_append_of_pos hds, hstop.1, hstop.2,
    List.append_nil, if_neg (by simpa using hne)]

namespace Numeral

/-- The numeral is one of the grammar: a zero before the point stands alone, and there are digits
after a point. -/
structure WellFormed (n : Numeral) : Prop where
  whole : n.whole = ['0'] ∨ Leading n.whole
  fraction : ∀ ds ∈ n.fraction, ds ≠ [] ∧ ∀ d ∈ ds, isDecimalDigit d = true

/-- A point and the digits after it. -/
def writtenFraction (fraction : Option (List Char)) : List Char := fraction.elim [] ('.' :: ·)

/-- An exponent with its mark and its sign. -/
def writtenExponent (exponent : Option Int) : List Char :=
  exponent.elim [] fun e => 'e' :: (if e < 0 then '-' else '+') :: decimalDigits e.natAbs

/-- The text of a numeral after its sign. -/
def unsigned (n : Numeral) : List Char :=
  n.whole ++ (writtenFraction n.fraction ++ writtenExponent n.exponent)

/-- The text of a numeral. -/
def written (n : Numeral) : List Char := if n.negative then '-' :: n.unsigned else n.unsigned

/-- The number that a numeral writes, without its sign. -/
def magnitude (n : Numeral) : ℚ :=
  digitsValue 10 (n.whole ++ n.fraction.getD []) *
    10 ^ (n.exponent.getD 0 - (n.fraction.getD []).length)

end Numeral

open Isolate.Json.Numeral

theorem readExponent_written (exponent : Option Int) (hrest : EndsNumeral rest) :
    readExponent (writtenExponent exponent ++ rest) = .ok (exponent, rest) := by
  cases exponent with
  | none =>
    cases rest with
    | nil => rfl
    | cons c cs =>
      have hc := hrest c rfl
      exact if_neg fun h => h.elim hc.2.2.1 hc.2.2.2
  | some e =>
    have hdigits : readDigits (decimalDigits e.natAbs ++ rest) =
        .ok (decimalDigits e.natAbs, rest) :=
      readDigits_append Nat.toDigits_ne_nil (fun d => isDecimalDigit_of_mem) hrest.noDigit
    rcases lt_or_ge e 0 with hneg | hpos
    · have hvalue : -(digitsValue 10 (decimalDigits e.natAbs) : ℤ) = e := by
        rw [digitsValue_decimalDigits]
        omega
      simp only [writtenExponent, Option.elim_some, if_pos hneg, List.cons_append, readExponent,
        Isolate.Numeral.splitSign, hdigits, true_or, if_true]
      exact congrArg (fun e => Except.ok (some e, rest)) hvalue
    · have hvalue : (digitsValue 10 (decimalDigits e.natAbs) : ℤ) = e := by
        rw [digitsValue_decimalDigits]
        omega
      simp only [writtenExponent, Option.elim_some, if_neg (not_lt.2 hpos), List.cons_append,
        readExponent, Isolate.Numeral.splitSign, hdigits, true_or, if_true]
      exact congrArg (fun e => Except.ok (some e, rest)) hvalue

theorem readFraction_written {fraction : Option (List Char)}
    (h : ∀ ds ∈ fraction, ds ≠ [] ∧ ∀ d ∈ ds, isDecimalDigit d = true)
    (hrest : ∀ c ∈ rest.head?, isDecimalDigit c = false ∧ c ≠ '.') :
    readFraction (writtenFraction fraction ++ rest) = .ok (fraction, rest) := by
  cases fraction with
  | none =>
    cases rest with
    | nil => rfl
    | cons c cs =>
      have hc := (hrest c rfl).2
      simp [writtenFraction, readFraction, hc]
  | some ds =>
    obtain ⟨hne, hds⟩ := h ds rfl
    have hdigits := readDigits_append hne hds fun c hc => (hrest c hc).1
    simp only [writtenFraction, Option.elim_some, List.cons_append, readFraction, hdigits]
    rfl

theorem readWhole_written (h : ds = ['0'] ∨ Leading ds) (hrest : NoDigit rest) :
    readWhole (ds ++ rest) = .ok (ds, rest) := by
  rcases h with rfl | hleading
  · rw [List.cons_append, List.nil_append, readWhole]
    cases rest with
    | nil => rfl
    | cons c cs =>
      have hc : isDecimalDigit c = false := hrest c rfl
      simp [hc]
  · have hdigits := readDigits_append (List.ne_nil_of_length_pos
      (by obtain ⟨-, -, -⟩ := hleading; exact Nat.succ_pos _)) hleading.isDecimalDigit hrest
    obtain ⟨hc, hzero, hds⟩ := hleading
    rw [← hdigits, List.cons_append]
    exact readWhole.eq_2 _ fun cs hcs => hzero (List.cons.inj hcs).1

/-- What follows the whole digits of a numeral. -/
theorem head_of_fraction (n : Numeral) (hrest : EndsNumeral rest) :
    NoDigit (writtenFraction n.fraction ++ (writtenExponent n.exponent ++ rest)) ∧
      ∀ c ∈ (writtenExponent n.exponent ++ rest).head?, isDecimalDigit c = false ∧ c ≠ '.' := by
  have hexponent : ∀ c ∈ (writtenExponent n.exponent ++ rest).head?,
      isDecimalDigit c = false ∧ c ≠ '.' := by
    cases n.exponent with
    | none => exact fun c hc => ⟨(hrest c hc).1, (hrest c hc).2.1⟩
    | some e =>
      intro c hc
      cases hc
      decide
  refine ⟨?_, hexponent⟩
  cases n.fraction with
  | none => exact fun c hc => (hexponent c hc).1
  | some ds => exact noDigit_cons (by decide)

/-- The sign of a numeral is read off first; digits have none. -/
theorem readNumeral_sign {n : Numeral} (h : n.WellFormed) (rest : List Char) :
    readNumeral (n.written ++ rest) = (do
      let (whole, cs) ← readWhole
        (n.whole ++ (writtenFraction n.fraction ++ (writtenExponent n.exponent ++ rest)))
      let (fraction, cs) ← readFraction cs
      let (exponent, cs) ← readExponent cs
      pure (⟨n.negative, whole, fraction, exponent⟩, cs)) := by
  obtain ⟨negative, whole, fraction, exponent⟩ := n
  obtain ⟨hwhole, -⟩ := h
  cases negative with
  | true =>
    simp only [written, unsigned, if_true, List.cons_append, List.append_assoc]
    rfl
  | false =>
    obtain ⟨c, cs, rfl, hc⟩ : ∃ c cs, whole = c :: cs ∧ c ≠ '-' := by
      rcases hwhole with rfl | hleading
      · exact ⟨_, _, rfl, by decide⟩
      · obtain ⟨hc, -, -⟩ := hleading
        exact ⟨_, _, rfl, by rintro rfl; revert hc; decide⟩
    simp only [readNumeral, written, unsigned, Bool.false_eq_true, if_false, List.cons_append,
      List.append_assoc]
    split
    · rename_i heq
      exact absurd (List.cons.inj heq).1 hc
    · rfl

/-- **A numeral is read as it is written,** if the text does not go on with it. -/
theorem readNumeral_written {n : Numeral} (h : n.WellFormed) (hrest : EndsNumeral rest) :
    readNumeral (n.written ++ rest) = .ok (n, rest) := by
  obtain ⟨hwhole, hfraction⟩ := head_of_fraction n hrest
  rw [readNumeral_sign h, readWhole_written h.whole hwhole]
  dsimp only [bind, Except.bind]
  rw [readFraction_written h.fraction hfraction]
  dsimp only
  rw [readExponent_written n.exponent hrest]
  rfl

/-! ### Integers -/

/-- **An integer of 64 bits is written as a numeral that stands for it.** -/
theorem exists_integer_eq {n : ℤ} (hlow : -bound63 ≤ n) (hhigh : n < bound64) :
    ∃ n' : Numeral, n'.WellFormed ∧ integer n = n'.written ∧ n'.int? = some n := by
  refine ⟨⟨n < 0, decimalDigits n.natAbs, none, none⟩, ⟨?_, by simp⟩, ?_, ?_⟩
  · rcases Nat.eq_zero_or_pos n.natAbs with hzero | hpos
    · rw [hzero]
      exact .inl rfl
    · exact .inr (leading_decimalDigits hpos)
  · simp only [integer, written, decide_eq_true_eq, unsigned, writtenFraction, writtenExponent,
      Option.elim_none, List.append_nil]
  · unfold int?
    simp only [Option.isSome_none, Bool.or_self, Bool.false_eq_true, if_false,
      digitsValue_decimalDigits, decide_eq_true_eq]
    unfold bound63 bound64 at *
    split_ifs <;> first | omega | (rw [Option.some.injEq]; omega)

/-! ### Doubles -/

theorem digitsValue_zero_cons (ds : List Char) :
    digitsValue 10 ('0' :: ds) = digitsValue 10 ds := by
  simp [digitsValue, hexDigitValue?]

theorem isDecimalDigit_of_mem_zeros (h : c ∈ zeros k) : isDecimalDigit c = true := by
  rw [List.eq_of_mem_replicate h]
  decide

/-- The text is a numeral with a point or an exponent and stands for the digits with the point after
the given number of them. -/
structure Numeral.Places (n : Numeral) (text ds : List Char) (point : ℤ) : Prop where
  wellFormed : n.WellFormed
  unsigned_eq : n.unsigned = text
  magnitude_eq : n.magnitude = digitsValue 10 ds * 10 ^ (point - ds.length)
  marked : (n.fraction.isSome || n.exponent.isSome) = true

/-- One digit, the others after a point, and an exponent. -/
theorem places_scientific (h : Leading ds) (point : ℤ) : ∃ n : Numeral, n.Places
    (ds.take 1 ++ (if (ds.drop 1).isEmpty then [] else '.' :: ds.drop 1) ++
      ['e', if point - 1 < 0 then '-' else '+'] ++ decimalDigits (point - 1).natAbs) ds point := by
  obtain ⟨hc, hzero, hds⟩ := h
  rename_i c ds
  have hwhole : Leading [c] := .intro hc hzero (by simp)
  cases ds with
  | nil =>
    refine ⟨⟨false, [c], none, some (point - 1)⟩, ⟨.inr hwhole, by simp⟩, ?_, ?_, rfl⟩
    · simp [unsigned, writtenFraction, writtenExponent]
    · simp [magnitude]
  | cons d ds =>
    refine ⟨⟨false, [c], some (d :: ds), some (point - 1)⟩, ⟨.inr hwhole, ?_⟩, ?_, ?_, rfl⟩
    · rintro _ ⟨⟩
      exact ⟨List.cons_ne_nil _ _, hds⟩
    · simp [unsigned, writtenFraction, writtenExponent]
    · simp only [magnitude, Option.getD_some, List.singleton_append, List.length_cons]
      push_cast
      ring_nf

/-- Zeros in front of the digits. -/
theorem places_small (h : Leading ds) {point : ℤ} (hpoint : point ≤ 0) : ∃ n : Numeral,
    n.Places ('0' :: '.' :: (zeros (-point).toNat ++ ds)) ds point := by
  refine ⟨⟨false, ['0'], some (zeros (-point).toNat ++ ds), none⟩, ⟨.inl rfl, ?_⟩, ?_, ?_, rfl⟩
  · rintro _ ⟨⟩
    refine ⟨?_, fun d hd => (List.mem_append.1 hd).elim isDecimalDigit_of_mem_zeros
      (h.isDecimalDigit d)⟩
    obtain ⟨-, -, -⟩ := h
    simp
  · simp [unsigned, writtenFraction, writtenExponent]
  · have hlength : ((zeros (-point).toNat ++ ds).length : ℤ) = -point + ds.length := by
      rw [List.length_append, zeros, List.length_replicate]
      omega
    simp only [magnitude, Option.getD_some, Option.getD_none, List.singleton_append, hlength]
    rw [digitsValue_zero_cons, digitsValue_append, digitsValue_zeros, zero_mul, zero_add]
    congr 2
    omega

/-- Zeros behind the digits, and a mark. -/
theorem places_whole (h : Leading ds) {point : ℤ} (hpoint : 0 < point)
    (hlength : ds.length ≤ point.toNat) :
    ∃ n : Numeral, n.Places (ds ++ zeros (point.toNat - ds.length) ++ ['.', '0']) ds point := by
  refine ⟨⟨false, ds ++ zeros (point.toNat - ds.length), some ['0'], none⟩, ⟨.inr ?_, ?_⟩, ?_, ?_,
    rfl⟩
  · exact h.append fun d hd => isDecimalDigit_of_mem_zeros hd
  · rintro _ ⟨⟩
    exact ⟨List.cons_ne_nil _ _, List.forall_mem_singleton.2 rfl⟩
  · simp [unsigned, writtenFraction, writtenExponent]
  · have hplace : point - ds.length = (point.toNat - ds.length : ℕ) := by omega
    have hvalue : digitsValue 10 (ds ++ zeros (point.toNat - ds.length) ++ ['0']) =
        digitsValue 10 ds * 10 ^ (point.toNat - ds.length) * 10 := by
      rw [digitsValue_append, digitsValue_append, digitsValue_zeros, zeros, List.length_replicate]
      rfl
    simp only [magnitude, Option.getD_some, Option.getD_none, hvalue, hplace, zpow_natCast]
    push_cast
    norm_num
    ring

/-- The point among the digits. -/
theorem places_inner (h : Leading ds) {point : ℤ} (hpoint : 0 < point)
    (hlength : point.toNat < ds.length) :
    ∃ n : Numeral, n.Places (ds.take point.toNat ++ '.' :: ds.drop point.toNat) ds point := by
  refine ⟨⟨false, ds.take point.toNat, some (ds.drop point.toNat), none⟩, ⟨.inr ?_, ?_⟩, ?_, ?_,
    rfl⟩
  · rw [← List.take_append_drop point.toNat ds] at h
    refine h.of_append (List.ne_nil_of_length_pos ?_)
    rw [List.length_take]
    omega
  · rintro _ ⟨⟩
    refine ⟨List.ne_nil_of_length_pos ?_, fun d hd => h.isDecimalDigit d (List.mem_of_mem_drop hd)⟩
    rw [List.length_drop]
    omega
  · simp [unsigned, writtenFraction, writtenExponent]
  · simp only [magnitude, Option.getD_some, Option.getD_none, List.take_append_drop,
      List.length_drop]
    congr 2
    omega

/-- **Wherever the point is placed,** the text is a numeral with a point or an exponent. -/
theorem exists_place_eq (h : Leading ds) (point : ℤ) : ∃ n : Numeral,
    n.Places (NumberLayout.json.place ds point) ds point := by
  unfold NumberLayout.place NumberLayout.json
  dsimp only
  by_cases hfull : -4 ≤ point ∧ point ≤ 16
  · rw [if_neg (by simpa using hfull)]
    split_ifs with hsmall hwhole
    · exact places_small h hsmall
    · exact places_whole h (by omega) hwhole
    · exact absurd rfl ‹_›
    · exact places_inner h (by omega) (by omega)
  · rw [if_pos (by simp; omega)]
    exact places_scientific h point

theorem leading_stripZeros (h : Leading ds) : Leading (stripZeros ds).1 := by
  have hsplit := stripZeros_append ds
  generalize (stripZeros ds).1 = kept at *
  rw [← hsplit] at h
  refine h.of_append ?_
  rintro rfl
  obtain ⟨k, hk⟩ : ∃ k, (stripZeros ds).2 = k + 1 := by
    rcases Nat.eq_zero_or_pos (stripZeros ds).2 with hzero | hpos
    · rw [hzero] at h
      cases h
    · exact ⟨_, (Nat.succ_pred_eq_of_pos hpos).symm⟩
  rw [hk] at h
  cases h with
  | intro _ hzero _ => exact hzero rfl

/-- The digits of a positive double and their point are a numeral that is nearest to it. -/
theorem exists_digits_eq {x : Binary64} {negative : Bool} {m : ℕ} {e : ℤ}
    (hx : x.reading = .finite negative m e) (hm : 0 < m) {kept : List Char} {dropped : ℕ}
    (hkept : stripZeros (decimalDigits (Decimal.shortest m e).significand) = (kept, dropped)) :
    ∃ n : Numeral, n.WellFormed ∧ n.unsigned = NumberLayout.json.place kept
        (kept.length + ((Decimal.shortest m e).exponent + dropped)) ∧
      x.IsNearest negative n.magnitude ∧ (n.fraction.isSome || n.exponent.isSome) = true := by
  have hpos := Decimal.significand_shortest_pos (Binary64.canonical_of_reading hx) hm
  have hleading := leading_stripZeros (leading_decimalDigits hpos)
  have hvalue := digitsValue_decimalDigits (Decimal.shortest m e).significand
  rw [← stripZeros_append (decimalDigits _), hkept, digitsValue_append, digitsValue_zeros,
    add_zero, zeros, List.length_replicate] at hvalue
  rw [hkept] at hleading
  obtain ⟨n, hn⟩ := exists_place_eq hleading
    (kept.length + ((Decimal.shortest m e).exponent + dropped))
  refine ⟨n, hn.wellFormed, hn.unsigned_eq, ?_, hn.marked⟩
  have hmagnitude : n.magnitude =
      (Decimal.shortest m e).significand * 10 ^ (Decimal.shortest m e).exponent := by
    rw [hn.magnitude_eq, add_sub_cancel_left, zpow_add₀ (by norm_num), zpow_natCast, ← hvalue]
    push_cast
    ring
  rw [hmagnitude]
  exact Decimal.isNearest_shortest hx hm

/-- **A finite double is written as a numeral that is nearest to it.** -/
theorem exists_float_eq {x : Binary64} (hx : x.isFinite = true) : ∃ n : Numeral, n.WellFormed ∧
    float x = n.written ∧ x.IsNearest n.negative n.magnitude ∧ n.int? = none := by
  cases hreading : x.reading with
  | infinite negative => simp [Binary64.isFinite, hreading] at hx
  | nan => simp [Binary64.isFinite, hreading] at hx
  | finite negative m e =>
  obtain ⟨n, hn, htext, hnearest, hmarked⟩ : ∃ n : Numeral, n.WellFormed ∧
      float x = (if negative then '-' :: n.unsigned else n.unsigned) ∧
      x.IsNearest negative n.magnitude ∧ (n.fraction.isSome || n.exponent.isSome) = true := by
    rw [float, if_pos hx, Binary64.text, hreading]
    dsimp only
    rw [String.toList_ofList]
    rcases Nat.eq_zero_or_pos m with rfl | hpos
    · refine ⟨⟨false, ['0'], some ['0'], none⟩, ⟨.inl rfl, ?_⟩, rfl, ?_, rfl⟩
      · rintro _ ⟨⟩
        exact ⟨List.cons_ne_nil _ _, List.forall_mem_singleton.2 rfl⟩
      · have hzero : magnitude ⟨false, ['0'], some ['0'], none⟩ = 0 := by
          have : digitsValue 10 ['0', '0'] = 0 := rfl
          simp [magnitude, this]
        rw [hzero]
        exact Decimal.isNearest_zero hreading
    · rw [if_neg hpos.ne']
      obtain ⟨n, hn, htext, hnearest⟩ := exists_digits_eq hreading hpos (Prod.eta _).symm
      exact ⟨n, hn, by rw [htext], hnearest⟩
  exact ⟨{ n with negative }, ⟨hn.whole, hn.fraction⟩, htext, hnearest, if_pos hmarked⟩

/-! ### Reading back -/

variable {float? : Numeral → Option Binary64}

/-- The numeral is read as the double that is nearest to it. -/
def Numeral.IsReadNearest (float? : Numeral → Option Binary64) (n : Numeral) : Prop :=
  ∃ x, float? n = some x ∧ x.IsNearest n.negative n.magnitude

/-- The numeral that is written for the double is read as the double that is nearest to it. -/
def ReadsNearest (float? : Numeral → Option Binary64) (x : Binary64) : Prop :=
  ∀ n, readNumeral (float x) = .ok (n, []) → n.IsReadNearest float?

theorem readNumber_integer {n : ℤ} (hlow : -bound63 ≤ n) (hhigh : n < bound64)
    (hrest : EndsNumeral rest) : readNumber float? (integer n ++ rest) = .ok (.int n, rest) := by
  obtain ⟨n', hn', htext, hint⟩ := exists_integer_eq hlow hhigh
  rw [htext, readNumber, readNumeral_written hn' hrest]
  dsimp only [bind, Except.bind]
  rw [Numeral.value, hint]
  rfl

/-- **A finite double is read as it is written** if its numeral is read to the nearest double. -/
theorem readNumber_float {x : Binary64} (hx : x.isFinite = true) (hread : ReadsNearest float? x)
    (hrest : EndsNumeral rest) : readNumber float? (float x ++ rest) = .ok (.float x, rest) := by
  obtain ⟨n, hn, htext, hnearest, hint⟩ := exists_float_eq hx
  have halone : readNumeral (float x) = .ok (n, []) := by
    rw [htext, ← List.append_nil n.written]
    exact readNumeral_written hn nofun
  obtain ⟨y, hy, hnearest'⟩ := hread n halone
  rw [htext, readNumber, readNumeral_written hn hrest]
  dsimp only [bind, Except.bind]
  rw [Numeral.value, hint, hy, hnearest.unique hnearest']
  rfl

/-- Only a reading as the double that was written is one as the nearest double. -/
theorem readsNearest_of_eq {x : Binary64} {n : Numeral} (hx : x.isFinite = true)
    (hn : readNumeral (float x) = .ok (n, [])) (hread : float? n = some x) :
    ReadsNearest float? x := by
  obtain ⟨n', hn', htext, hnearest, -⟩ := exists_float_eq hx
  have halone : readNumeral (float x) = .ok (n', []) := by
    rw [htext, ← List.append_nil n'.written]
    exact readNumeral_written hn' nofun
  cases halone.symm.trans hn
  intro n hn
  cases halone.symm.trans hn
  exact ⟨x, hread, hnearest⟩

/-- A numeral begins with a sign or a digit. -/
theorem exists_written_eq {n : Numeral} (h : n.WellFormed) :
    ∃ c cs, n.written = c :: cs ∧ (c = '-' ∨ isDecimalDigit c = true) := by
  obtain ⟨c, cs, hwhole, hc⟩ : ∃ c cs, n.whole = c :: cs ∧ isDecimalDigit c = true := by
    rcases h.whole with hzero | hleading
    · exact ⟨_, _, hzero, by decide⟩
    · generalize n.whole = whole at hleading
      obtain ⟨hc, -, -⟩ := hleading
      exact ⟨_, _, rfl, hc⟩
  unfold written unsigned
  rw [hwhole]
  split_ifs
  · exact ⟨_, _, rfl, .inl rfl⟩
  · exact ⟨_, _, rfl, .inr hc⟩

end Json

end Isolate
