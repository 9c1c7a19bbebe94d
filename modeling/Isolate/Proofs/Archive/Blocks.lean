import Mathlib.Tactic
import Isolate.Archive.Unpack

/-!
# Header blocks are read back

A header block has fields of fixed sizes; each is read from where it was written.

* `readNumber_octalField`, `readNumber_numberField`: numbers in fields;
* `slice_flatten`: a field among the fields before and after it;
* `Header.Fits`, `ofBlock_block`: headers whose fields hold what is put into them;
* `checksumHolds_block`: the checksum of a block.
-/

namespace Isolate.Archive

/-! ### Numbers -/

theorem div_pow_succ (base count n : ℕ) :
    n / base / Nat.pow base count = n / Nat.pow base (count + 1) := by
  rw [Nat.div_div_eq_div_mul, Nat.mul_comm]
  rfl

/-- The first digit of several. -/
theorem lowDigits_succ (base count n : ℕ) : lowDigits base (count + 1) n =
    n / Nat.pow base count % base :: lowDigits base count n := by
  induction count generalizing n with
  | zero => simp [lowDigits]
  | succ count ih =>
    rw [lowDigits, ih, div_pow_succ, List.cons_append]
    rfl

theorem length_lowDigits (base count n : ℕ) : (lowDigits base count n).length = count := by
  induction count generalizing n with
  | zero => rfl
  | succ count ih => simp [lowDigits, ih]

theorem lt_of_mem_lowDigits {base count n d : ℕ} (pos : 0 < base) (h : d ∈ lowDigits base count n) :
    d < base := by
  induction count generalizing n with
  | zero => cases h
  | succ count ih =>
    rcases List.mem_append.1 h with h | h
    · exact ih h
    · rw [List.mem_singleton.1 h]
      exact Nat.mod_lt n pos

/-- The lowest digits of a number, read on after the others. -/
theorem foldl_lowDigits (base count n : ℕ) :
    (lowDigits base count n).foldl (fun m d => m * base + d) (n / Nat.pow base count) = n := by
  induction count generalizing n with
  | zero => exact Nat.div_one n
  | succ count ih =>
    rw [lowDigits, List.foldl_append, ← div_pow_succ, ih]
    exact Nat.div_add_mod' n base

/-- One more octal digit; other bytes are passed over. -/
def takeOctal (n : ℕ) (c : UInt8) : ℕ := if 48 ≤ c ∧ c < 56 then n * 8 + (c.toNat - 48) else n

theorem takeOctal_digit (n : ℕ) {d : ℕ} (h : d < 8) :
    takeOctal n (UInt8.ofNat (48 + d)) = n * 8 + d := by
  interval_cases d <;> rfl

theorem readNumber_of_lt {bytes : Bytes} (h : ∀ b ∈ bytes.head?, b < 0x80) :
    readNumber bytes = bytes.foldl takeOctal 0 := by
  cases bytes with
  | nil => rfl
  | cons b bs =>
    have hb : ¬ 0x80 ≤ b := UInt8.not_le.2 (h b rfl)
    rw [readNumber, if_neg hb]
    rfl

/-- **A number in octal digits is read back** if the digits suffice. -/
theorem readNumber_octalField {size n : ℕ} (h : n < Nat.pow 8 (size - 1)) :
    readNumber (octalField size n) = n := by
  have hhead : ∀ b ∈ (octalField size n).head?, b < 0x80 := by
    intro b hb
    rcases List.mem_append.1 (List.mem_of_mem_head? hb) with hb | hb
    · obtain ⟨d, hd, rfl⟩ := List.mem_map.1 hb
      have hlt : d < 8 := lt_of_mem_lowDigits (by decide) hd
      interval_cases d <;> decide
    · rw [List.mem_singleton.1 hb]
      decide
  have hdigits : ∀ m, ∀ d ∈ lowDigits 8 (size - 1) n,
      takeOctal m (UInt8.ofNat (48 + d)) = m * 8 + d := fun m d hd =>
    takeOctal_digit m (lt_of_mem_lowDigits (by decide) hd)
  have hzero : n / Nat.pow 8 (size - 1) = 0 := Nat.div_eq_of_lt h
  have hall := foldl_lowDigits 8 (size - 1) n
  rw [hzero] at hall
  rw [readNumber_of_lt hhead, octalField, List.foldl_append, List.foldl_map,
    List.foldl_ext _ _ _ hdigits, hall]
  rfl

@[simp] theorem length_octalField {size : ℕ} (h : 0 < size) (n : ℕ) :
    (octalField size n).length = size := by
  rw [octalField, List.length_append, List.length_map, length_lowDigits]
  simp only [List.length_singleton]
  omega

/-- The first bit of a byte is a mark that does not count. -/
theorem unmarked {d : ℕ} (h : d < 128) : ((UInt8.ofNat d ||| 0x80) &&& 0x7f).toNat = d := by
  have hall : ∀ d : Fin 128, ((UInt8.ofNat d ||| 0x80) &&& 0x7f).toNat = d := by decide
  exact hall ⟨d, h⟩

theorem marked {d : ℕ} (h : d < 128) : 0x80 ≤ UInt8.ofNat d ||| 0x80 := by
  have hall : ∀ d : Fin 128, 0x80 ≤ UInt8.ofNat d ||| 0x80 := by decide
  exact hall ⟨d, h⟩

/-- **A number in a field is read back,** be it in octal digits or in bytes, if it leaves the first
bit free. -/
theorem readNumber_numberField {count n : ℕ} (h : n < 128 * Nat.pow 256 count) :
    readNumber (numberField (count + 1) n) = n := by
  unfold numberField
  split_ifs with hoctal
  · exact readNumber_octalField hoctal
  · have hfirst : n / Nat.pow 256 count < 128 := Nat.div_lt_of_lt_mul (by rwa [Nat.mul_comm])
    have hdigits : ∀ m, ∀ d ∈ lowDigits 256 count n,
        m * 256 + (UInt8.ofNat d).toNat = m * 256 + d := by
      intro m d hd
      rw [UInt8.toNat_ofNat', Nat.mod_eq_of_lt (lt_of_mem_lowDigits (by decide) hd)]
    rw [lowDigits_succ, Nat.mod_eq_of_lt (hfirst.trans (by decide)), List.map_cons]
    simp only [readNumber]
    rw [if_pos (marked hfirst), unmarked hfirst, List.foldl_map, List.foldl_ext _ _ _ hdigits]
    exact foldl_lowDigits 256 count n

@[simp] theorem length_numberField {size : ℕ} (h : 0 < size) (n : ℕ) :
    (numberField size n).length = size := by
  unfold numberField
  split_ifs
  · exact length_octalField h n
  · have hlength : ((lowDigits 256 size n).map UInt8.ofNat).length = size := by
      rw [List.length_map, length_lowDigits]
    split
    · rename_i hnil
      rw [hnil] at hlength
      exact hlength
    · rename_i b bs hcons
      rw [hcons] at hlength
      exact hlength

/-! ### Fields -/

/-- A field is found behind the fields before it. -/
theorem slice_flatten (before : List Bytes) {part : Bytes} {after : List Bytes} {start size : ℕ}
    (hstart : start = before.flatten.length) (hsize : size = part.length) :
    slice (before ++ part :: after).flatten start size = part := by
  simp [slice, hstart, hsize]

@[simp] theorem length_nulls (n : ℕ) : (nulls n).length = n := List.length_replicate

@[simp] theorem length_field (size : ℕ) (bytes : Bytes) : (field size bytes).length = size := by
  simp only [field, List.length_append, List.length_take, length_nulls]
  omega

/-- What fits a field and has no zero byte is found again before the first zero byte. -/
theorem takeWhile_field {size : ℕ} {bytes : Bytes} (fits : bytes.length ≤ size)
    (nonzero : 0 ∉ bytes) : (field size bytes).takeWhile (· != 0) = bytes := by
  have hbytes : ∀ b ∈ bytes, (b != 0) = true := fun b hb => bne_iff_ne.2 fun h => nonzero (h ▸ hb)
  have hnulls : ∀ n, (nulls n).takeWhile (· != 0) = [] := by
    intro n
    cases n <;> simp [nulls, List.replicate_succ]
  rw [field, List.take_of_length_le fits, List.takeWhile_append_of_pos hbytes, hnulls,
    List.append_nil]

/-! ### Headers -/

namespace Header

/-- What is put into the fields of a header fits them: the name has no zero byte, and the numbers
leave enough room. -/
structure Fits (h : Header) : Prop where
  name : h.name.length ≤ nameSize
  nonzero : 0 ∉ h.name
  mode : h.mode < Nat.pow 8 7
  size : h.size < 128 * Nat.pow 256 11
  kind : h.kind = .file ∨ h.kind = .longName

/-- The number that the checksum of a header shows. -/
def sum (h : Header) : ℕ := byteSum h.front + 8 * 32 + byteSum h.back

variable (h : Header)

@[simp] theorem length_owners (kind : Kind) : kind.owners.length = 16 := by
  cases kind <;> simp [Kind.owners]

@[simp] theorem length_front : h.front.length = 148 := by
  simp [front, nameSize]

@[simp] theorem length_back : h.back.length = 356 := by
  simp [back, magic]

theorem block_eq : h.block = h.front ++ (octalField 8 h.sum ++ h.back) := List.append_assoc _ _ _

@[simp] theorem length_block : h.block.length = blockSize := by
  simp [block_eq, blockSize]

/-- A block is made of its fields. -/
theorem block_eq_flatten : h.block =
    [field nameSize h.name, octalField 8 h.mode, h.kind.owners, numberField 12 h.size,
      numberField 12 h.modified, octalField 8 h.sum, [h.kind.flag], nulls 100, magic,
      nulls 247].flatten := by
  simp [block_eq, front, back]

end Header

theorem foldl_add_le (bytes : Bytes) (n : ℕ) :
    bytes.foldl (fun n b => n + b.toNat) n ≤ n + 255 * bytes.length := by
  induction bytes generalizing n with
  | nil => simp
  | cons b bs ih =>
    have hb := b.toNat_lt
    have hbs := ih (n + b.toNat)
    simp only [List.foldl_cons, List.length_cons]
    omega

theorem byteSum_le (bytes : Bytes) : byteSum bytes ≤ 255 * bytes.length := by
  simpa [byteSum] using foldl_add_le bytes 0

namespace Header

variable {h : Header}

/-- The checksum of a block has room in its field. -/
theorem sum_lt (h : Header) : h.sum < Nat.pow 8 7 := by
  have hfront := byteSum_le h.front
  have hback := byteSum_le h.back
  have hpow : Nat.pow 8 7 = 2097152 := rfl
  rw [length_front] at hfront
  rw [length_back] at hback
  rw [sum, hpow]
  omega

theorem sum_block (h : Header) : slice h.block 148 8 = octalField 8 h.sum := by
  rw [block_eq_flatten]
  exact slice_flatten [field nameSize h.name, octalField 8 h.mode, h.kind.owners,
    numberField 12 h.size, numberField 12 h.modified] (by simp [nameSize]) (by simp)

theorem magic_block (h : Header) : slice h.block 257 8 = magic := by
  rw [block_eq_flatten]
  exact slice_flatten [field nameSize h.name, octalField 8 h.mode, h.kind.owners,
    numberField 12 h.size, numberField 12 h.modified, octalField 8 h.sum, [h.kind.flag], nulls 100]
    (by simp [nameSize]) rfl

/-- **The checksum of a header holds.** -/
theorem checksumHolds_block (h : Header) : checksumHolds h.block = true := by
  have hfront : h.block.take 148 = h.front := by
    rw [block_eq]
    exact List.take_left' h.length_front
  have hback : h.block.drop 156 = h.back := by
    rw [block_eq, ← List.append_assoc]
    exact List.drop_left' (by simp)
  rw [checksumHolds, sum_block, hfront, hback, readNumber_octalField h.sum_lt]
  exact decide_eq_true rfl

/-- **The fields of a header are read back** from its block. -/
theorem ofBlock_block (fits : h.Fits) :
    ofBlock h.block = { h with modified := readNumber (numberField 12 h.modified) } := by
  have hname : slice h.block 0 nameSize = field nameSize h.name := by
    rw [block_eq_flatten]
    exact slice_flatten [] rfl (length_field _ _).symm
  have hmode : slice h.block 100 8 = octalField 8 h.mode := by
    rw [block_eq_flatten]
    exact slice_flatten [field nameSize h.name] (by simp [nameSize]) (by simp)
  have hsize : slice h.block 124 12 = numberField 12 h.size := by
    rw [block_eq_flatten]
    exact slice_flatten [field nameSize h.name, octalField 8 h.mode, h.kind.owners]
      (by simp [nameSize]) (by simp)
  have hmodified : slice h.block 136 12 = numberField 12 h.modified := by
    rw [block_eq_flatten]
    exact slice_flatten [field nameSize h.name, octalField 8 h.mode, h.kind.owners,
      numberField 12 h.size] (by simp [nameSize]) (by simp)
  have hkind : h.block[156]? = some h.kind.flag := by
    have hlength : (h.front ++ octalField 8 h.sum).length = 156 := by simp
    rw [block_eq, ← List.append_assoc, List.getElem?_append_right hlength.le, hlength]
    rfl
  unfold ofBlock
  rw [hname, hmode, hsize, hmodified, hkind, takeWhile_field fits.name fits.nonzero,
    readNumber_octalField fits.mode, readNumber_numberField fits.size]
  rcases fits.kind with hk | hk <;> rw [hk] <;> rfl

/-- A header block is no block of zeros. -/
theorem block_ne_zeros (h : Header) : h.block.all (· == 0) = false := by
  refine List.all_eq_false.2 ⟨117, ?_, by decide⟩
  have hmagic : (117 : UInt8) ∈ magic := by decide
  simp [block_eq, back, hmagic]

end Header

end Isolate.Archive
