import Mathlib.Tactic
import Isolate.Text.Utf8

/-!
# Decoding what was encoded

The machine reads a character byte by byte. After all of its bytes the character is written, and
before that nothing is: the machine waits inside of it.

* `Decoder.Awaits`: the machine waits for the byte that carries certain bits of a character, with
  `awaits_two`, `awaits_three`, `awaits_four` for the first byte and `Awaits.push`, `Awaits.last`;
* `Decoder.foldl_char`, `Decoder.foldl_part`: all bytes of a character, and only some of them;
* `decodeLossy_encode`: a text is read back from its bytes;
* `decodeLossy_cut`: what is read of a text that was cut off inside a character;
* `length_encode_decodeLossy`: whatever the bytes, the text takes at most three times as many.
-/

namespace Isolate.Utf8

variable {reversed : List Char} {wellFormed : Bool} {missing n v : ℕ} {d : Decoder}

namespace Decoder

/-! ### The bytes of a character -/

/-- What the first byte of a character leads to, with the byte as a number. -/
theorem lead_eq (d : Decoder) (b : UInt8) : d.lead b =
    if b.toNat < 0x80 then d.emit (Char.ofNat b.toNat)
    else if b.toNat < 0xC2 then d.fault
    else if b.toNat < 0xE0 then d.await 1 0x80 0xBF (b.toNat - 0xC0)
    else if b.toNat = 0xE0 then d.await 2 0xA0 0xBF 0
    else if b.toNat = 0xED then d.await 2 0x80 0x9F 13
    else if b.toNat < 0xF0 then d.await 2 0x80 0xBF (b.toNat - 0xE0)
    else if b.toNat = 0xF0 then d.await 3 0x90 0xBF 0
    else if b.toNat < 0xF4 then d.await 3 0x80 0xBF (b.toNat - 0xF0)
    else if b.toNat = 0xF4 then d.await 3 0x80 0x8F 4
    else d.fault := by
  simp only [lead, UInt8.lt_iff_toNat_lt, ← UInt8.toNat_inj, UInt8.reduceToNat]

/-- The byte that carries the last six bits of a number. -/
def tail (n : ℕ) : UInt8 := UInt8.ofNat (n % 0x40 + 0x80)

theorem toNat_tail (n : ℕ) : (tail n).toNat = n % 0x40 + 0x80 :=
  UInt8.toNat_ofNat_of_lt' (show n % 0x40 + 0x80 < 256 by omega)

/-- The machine waits inside a character for so many bytes. It knows a number but for its last six
bits, and the next byte may carry these. -/
def Awaits (reversed : List Char) (wellFormed : Bool) (missing n : ℕ) (d : Decoder) : Prop :=
  ∃ low high, d = ⟨.inside missing low high (n / 0x40), reversed, wellFormed⟩ ∧
    low.toNat ≤ n % 0x40 + 0x80 ∧ n % 0x40 + 0x80 ≤ high.toNat

theorem awaits_await {k m : ℕ} {low high : UInt8} (hm : m = n / 0x40)
    (hlow : low.toNat ≤ n % 0x40 + 0x80) (hhigh : n % 0x40 + 0x80 ≤ high.toNat) :
    Awaits reversed wellFormed k n ((⟨.between, reversed, wellFormed⟩ : Decoder).await k low high m) :=
  ⟨low, high, by rw [hm]; rfl, hlow, hhigh⟩

theorem awaits_two (h : 0x80 ≤ v) (h' : v < 0x800) :
    Awaits reversed wellFormed 1 v ((⟨.between, reversed, wellFormed⟩ : Decoder).lead
      (UInt8.ofNat (v / 0x40 % 0x20 + 0xC0))) := by
  rw [lead_eq, UInt8.toNat_ofNat_of_lt' (show _ < 256 by omega), if_neg (by omega),
    if_neg (by omega), if_pos (by omega)]
  exact awaits_await (by omega) (show 0x80 ≤ _ by omega) (show _ ≤ 0xBF by omega)

/-- The bounds on the second byte keep out numbers below `0x800` and surrogates. -/
theorem awaits_three (h : 0x800 ≤ v) (h' : v < 0x10000) (hs : v < 0xD800 ∨ 0xDFFF < v) :
    Awaits reversed wellFormed 2 (v / 0x40) ((⟨.between, reversed, wellFormed⟩ : Decoder).lead
      (UInt8.ofNat (v / 0x1000 % 0x10 + 0xE0))) := by
  rw [lead_eq, UInt8.toNat_ofNat_of_lt' (show _ < 256 by omega), if_neg (by omega),
    if_neg (by omega), if_neg (by omega)]
  split_ifs
  · exact awaits_await (by omega) (show 0xA0 ≤ _ by omega) (show _ ≤ 0xBF by omega)
  · exact awaits_await (by omega) (show 0x80 ≤ _ by omega) (show _ ≤ 0x9F by omega)
  · exact awaits_await (by omega) (show 0x80 ≤ _ by omega) (show _ ≤ 0xBF by omega)
  all_goals omega

/-- The bounds on the second byte keep out numbers below `0x10000` and beyond the last character. -/
theorem awaits_four (h : 0x10000 ≤ v) (h' : v < 0x110000) :
    Awaits reversed wellFormed 3 (v / 0x40 / 0x40) ((⟨.between, reversed, wellFormed⟩ : Decoder).lead
      (UInt8.ofNat (v / 0x40000 % 0x08 + 0xF0))) := by
  rw [lead_eq, UInt8.toNat_ofNat_of_lt' (show _ < 256 by omega), if_neg (by omega),
    if_neg (by omega), if_neg (by omega), if_neg (by omega), if_neg (by omega), if_neg (by omega)]
  split_ifs
  · exact awaits_await (by omega) (show 0x90 ≤ _ by omega) (show _ ≤ 0xBF by omega)
  · exact awaits_await (by omega) (show 0x80 ≤ _ by omega) (show _ ≤ 0xBF by omega)
  · exact awaits_await (by omega) (show 0x80 ≤ _ by omega) (show _ ≤ 0x8F by omega)
  all_goals omega

/-- The byte that is waited for is accepted. -/
theorem push_tail {low high : UInt8} {value : ℕ} (hlow : low.toNat ≤ n % 0x40 + 0x80)
    (hhigh : n % 0x40 + 0x80 ≤ high.toNat) :
    (⟨.inside missing low high value, reversed, wellFormed⟩ : Decoder).push (tail n) =
      if missing ≤ 1 then ⟨.between, Char.ofNat (value * 0x40 + n % 0x40) :: reversed, wellFormed⟩
      else ⟨.inside (missing - 1) 0x80 0xBF (value * 0x40 + n % 0x40), reversed, wellFormed⟩ := by
  have hbounds : low ≤ tail n ∧ tail n ≤ high := by
    rw [UInt8.le_iff_toNat_le, UInt8.le_iff_toNat_le, toNat_tail]
    exact ⟨hlow, hhigh⟩
  simp only [push, if_pos hbounds, toNat_tail, Nat.add_sub_cancel]
  split_ifs <;> rfl

/-- **A byte inside a character.** -/
theorem Awaits.push (h : Awaits reversed wellFormed (missing + 2) (n / 0x40) d) :
    Awaits reversed wellFormed (missing + 1) n (d.push (tail (n / 0x40))) := by
  obtain ⟨low, high, rfl, hlow, hhigh⟩ := h
  rw [push_tail hlow hhigh, if_neg (by omega)]
  refine ⟨0x80, 0xBF, ?_, show 0x80 ≤ _ by omega, show _ ≤ 0xBF by omega⟩
  rw [show n / 0x40 / 0x40 * 0x40 + n / 0x40 % 0x40 = n / 0x40 by omega]
  rfl

/-- **The last byte of a character.** -/
theorem Awaits.last (h : Awaits reversed wellFormed 1 n d) :
    d.push (tail n) = ⟨.between, Char.ofNat n :: reversed, wellFormed⟩ := by
  obtain ⟨low, high, rfl, hlow, hhigh⟩ := h
  rw [push_tail hlow hhigh, if_pos le_rfl, show n / 0x40 * 0x40 + n % 0x40 = n by omega]

/-- The bytes of a character: its first one, and those that carry six bits each. -/
inductive Encoding (c : Char) : Bytes → Prop
  | one (h : c.toNat < 0x80) : Encoding c [UInt8.ofNat c.toNat]
  | two (h : 0x80 ≤ c.toNat) (h' : c.toNat < 0x800) :
      Encoding c [UInt8.ofNat (c.toNat / 0x40 % 0x20 + 0xC0), tail c.toNat]
  | three (h : 0x800 ≤ c.toNat) (h' : c.toNat < 0x10000) :
      Encoding c
        [UInt8.ofNat (c.toNat / 0x1000 % 0x10 + 0xE0), tail (c.toNat / 0x40), tail c.toNat]
  | four (h : 0x10000 ≤ c.toNat) :
      Encoding c [UInt8.ofNat (c.toNat / 0x40000 % 0x08 + 0xF0), tail (c.toNat / 0x40 / 0x40),
        tail (c.toNat / 0x40), tail c.toNat]

theorem encoding_utf8EncodeChar (c : Char) : Encoding c (String.utf8EncodeChar c) := by
  have hv : c.val.toNat = c.toNat := rfl
  unfold String.utf8EncodeChar
  dsimp only
  rw [hv]
  split_ifs
  · exact .one (by omega)
  · exact .two (by omega) (by omega)
  · exact .three (by omega) (by omega)
  · rw [show c.toNat / 4096 = c.toNat / 0x40 / 0x40 by omega]
    exact .four (by omega)

/-- Characters are neither surrogates nor beyond the last code point. -/
theorem toNat_bounds (c : Char) : c.toNat < 0xD800 ∨ 0xDFFF < c.toNat ∧ c.toNat < 0x110000 :=
  c.valid

/-- **The bytes of a character write that character.** -/
theorem foldl_char (c : Char) :
    (String.utf8EncodeChar c).foldl push ⟨.between, reversed, wellFormed⟩ =
      ⟨.between, c :: reversed, wellFormed⟩ := by
  have hbounds := toNat_bounds c
  obtain ⟨bytes, hbytes⟩ : ∃ bytes, String.utf8EncodeChar c = bytes := ⟨_, rfl⟩
  have hencoding := encoding_utf8EncodeChar c
  rw [hbytes] at hencoding ⊢
  conv_rhs => rw [← Char.ofNat_toNat c]
  cases hencoding with
  | one h =>
    show (⟨.between, reversed, wellFormed⟩ : Decoder).lead _ = _
    rw [lead_eq, UInt8.toNat_ofNat_of_lt' (show _ < 256 by omega), if_pos h]
    rfl
  | two h h' => exact (awaits_two h h').last
  | three h h' => exact (awaits_three h h' (by omega)).push.last
  | four h => exact (awaits_four h (by omega)).push.push.last

/-- The machine waits inside a character. -/
def Inside (reversed : List Char) (wellFormed : Bool) (d : Decoder) : Prop :=
  ∃ missing low high value, d = ⟨.inside missing low high value, reversed, wellFormed⟩

theorem Awaits.inside (h : Awaits reversed wellFormed missing n d) :
    Inside reversed wellFormed d := by
  obtain ⟨low, high, hd, _⟩ := h
  exact ⟨_, _, _, _, hd⟩

/-- **Some of the bytes of a character write nothing yet.** -/
theorem foldl_part (c : Char) {k : ℕ} (pos : 0 < k) (h : k < (String.utf8EncodeChar c).length) :
    Inside reversed wellFormed
      (((String.utf8EncodeChar c).take k).foldl push ⟨.between, reversed, wellFormed⟩) := by
  have hbounds := toNat_bounds c
  obtain ⟨bytes, hbytes⟩ : ∃ bytes, String.utf8EncodeChar c = bytes := ⟨_, rfl⟩
  have hencoding := encoding_utf8EncodeChar c
  rw [hbytes] at hencoding h ⊢
  cases hencoding with
  | one _ =>
    have hk : k < 1 := h
    omega
  | two h₁ h₂ =>
    have hk : k < 2 := h
    obtain rfl : k = 1 := by omega
    exact (awaits_two h₁ h₂).inside
  | three h₁ h₂ =>
    have hfirst : Awaits reversed wellFormed 2 _ _ := awaits_three h₁ h₂ (by omega)
    have hk : k < 3 := h
    obtain rfl | rfl : k = 1 ∨ k = 2 := by omega
    · exact hfirst.inside
    · exact hfirst.push.inside
  | four h₁ =>
    have hfirst : Awaits reversed wellFormed 3 _ _ := awaits_four h₁ (by omega)
    have hk : k < 4 := h
    obtain rfl | rfl | rfl : k = 1 ∨ k = 2 ∨ k = 3 := by omega
    · exact hfirst.inside
    · exact hfirst.push.inside
    · exact hfirst.push.push.inside

/-! ### Whole texts -/

theorem foldl_chars (cs : List Char) :
    (cs.flatMap String.utf8EncodeChar).foldl push ⟨.between, reversed, wellFormed⟩ =
      ⟨.between, cs.reverse ++ reversed, wellFormed⟩ := by
  induction cs generalizing reversed with
  | nil => rfl
  | cons c cs ih =>
    rw [List.flatMap_cons, List.foldl_append, foldl_char, ih, List.reverse_cons, List.append_assoc]
    rfl

end Decoder

/-- **A text is read back from its bytes.** -/
theorem decodeLossy_encode (s : String) : decodeLossy (encode s) = s := by
  rw [decodeLossy, decode, encode, Decoder.start, Decoder.foldl_chars]
  show String.ofList (s.toList.reverse ++ []).reverse = s
  rw [List.append_nil, List.reverse_reverse, String.ofList_toList]

/-- **A text that is cut off inside a character** is read up to that character, which is marked as
ill formed. -/
theorem decodeLossy_cut (s : String) (c : Char) {k : ℕ} (pos : 0 < k)
    (h : k < (String.utf8EncodeChar c).length) :
    decodeLossy (encode s ++ (String.utf8EncodeChar c).take k) =
      s ++ String.singleton replacement := by
  obtain ⟨missing, low, high, value, hd⟩ :=
    @Decoder.foldl_part (s.toList.reverse ++ []) true c k pos h
  rw [decodeLossy, decode, encode, Decoder.start, List.foldl_append, Decoder.foldl_chars, hd]
  show String.ofList (replacement :: (s.toList.reverse ++ [])).reverse = _
  rw [← String.toList_inj]
  simp

/-! ### Any bytes -/

namespace Decoder

/-- How many bytes the text takes that was written so far. -/
def size (d : Decoder) : ℕ := (d.reversed.flatMap String.utf8EncodeChar).length

theorem size_cons (position : Position) (c : Char) :
    (⟨position, c :: reversed, wellFormed⟩ : Decoder).size =
      c.utf8Size + (⟨position, reversed, wellFormed⟩ : Decoder).size := by
  simp [size]

/-- There is room for the text written so far, and inside a character also for the one that marks it
as ill formed. -/
def Within (d : Decoder) (room : ℕ) : Prop :=
  match d.position with
  | .between => d.size ≤ room
  | .inside .. => d.size + replacement.utf8Size ≤ room

/-- A first byte is a character by itself, or no character begins with it, or more bytes are waited
for. -/
theorem lead_cases (d : Decoder) (b : UInt8) :
    (b.toNat < 0x80 ∧ d.lead b = d.emit (Char.ofNat b.toNat)) ∨ d.lead b = d.fault ∨
      ∃ missing low high value, d.lead b = d.await missing low high value := by
  rw [lead_eq]
  split_ifs with hascii
  · exact Or.inl ⟨hascii, rfl⟩
  all_goals first | exact Or.inr (Or.inl rfl) | exact Or.inr (Or.inr ⟨_, _, _, _, rfl⟩)

theorem utf8Size_ascii : ∀ n < 0x80, (Char.ofNat n).utf8Size = 1 := by decide

theorem within_lead {room : ℕ} (b : UInt8)
    (h : size ⟨.between, reversed, wellFormed⟩ ≤ room) :
    ((⟨.between, reversed, wellFormed⟩ : Decoder).lead b).Within (room + 3) := by
  rcases lead_cases ⟨.between, reversed, wellFormed⟩ b with ⟨hb, heq⟩ | heq |
    ⟨missing, low, high, value, heq⟩ <;> rw [heq]
  · show size ⟨.between, Char.ofNat b.toNat :: reversed, wellFormed⟩ ≤ room + 3
    rw [size_cons, utf8Size_ascii _ hb]
    omega
  · show size ⟨.between, replacement :: reversed, false⟩ ≤ room + 3
    rw [size_cons, Nat.add_comm]
    exact Nat.add_le_add_right h 3
  · exact Nat.add_le_add_right h 3

/-- **Each byte makes the text longer by three bytes at most.** -/
theorem Within.push {room : ℕ} (b : UInt8) (h : d.Within room) : (d.push b).Within (room + 3) := by
  obtain ⟨position, reversed, wellFormed⟩ := d
  cases position with
  | between => exact within_lead b h
  | inside missing low high value =>
    have hroom : size ⟨.between, reversed, wellFormed⟩ + 3 ≤ room := h
    unfold Decoder.push
    dsimp only
    split_ifs
    · show size ⟨.between, Char.ofNat _ :: reversed, wellFormed⟩ ≤ room + 3
      rw [size_cons]
      have hfour := (Char.ofNat (value * 64 + (b.toNat - 0x80))).utf8Size_le_four
      omega
    · exact Nat.le_add_right_of_le hroom
    · refine within_lead b ?_
      show size ⟨.between, replacement :: reversed, false⟩ ≤ room
      rw [size_cons, Nat.add_comm]
      exact hroom

theorem within_foldl (bytes : Bytes) {room : ℕ} (h : d.Within room) :
    (bytes.foldl push d).Within (room + 3 * bytes.length) := by
  induction bytes generalizing d room with
  | nil => exact h
  | cons b bytes ih =>
    rw [List.foldl_cons, List.length_cons, Nat.mul_succ, Nat.add_comm (3 * bytes.length),
      ← Nat.add_assoc]
    exact ih (h.push b)

theorem Within.finish {room : ℕ} (h : d.Within room) : d.finish.size ≤ room := by
  obtain ⟨position, reversed, wellFormed⟩ := d
  cases position with
  | between => exact h
  | inside missing low high value =>
    show size ⟨.between, replacement :: reversed, false⟩ ≤ room
    rw [size_cons, Nat.add_comm]
    exact h

end Decoder

/-- **Whatever the bytes, their text takes at most three times as many.** -/
theorem length_encode_decodeLossy (bytes : Bytes) :
    (encode (decodeLossy bytes)).length ≤ 3 * bytes.length := by
  have hstart : Decoder.start.Within 0 := Nat.le_refl 0
  have hsize := (Decoder.within_foldl bytes hstart).finish
  rw [Nat.zero_add] at hsize
  have hreverse : (encode (decodeLossy bytes)).length = (decode bytes).size := by
    rw [encode, decodeLossy, String.toList_ofList, Decoder.text, List.length_flatMap,
      List.map_reverse, List.sum_reverse, ← List.length_flatMap, Decoder.size]
  rw [hreverse]
  exact hsize

end Isolate.Utf8
