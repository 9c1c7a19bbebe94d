import Isolate.Archive.Unpack
import Isolate.Number.Width
import Isolate.Proofs.Archive.Blocks
import Isolate.Proofs.Archive.Names

/-!
# Unpacking undoes packing

An archive is a sequence of records, and the reader finds the same records in it.

* `Record`, `Record.Sound`: a header and the data it counts;
* `entriesFrom_record`, `entries_records`: reading one record, and all of them;
* `Packing`, `packing_of_entry`: the one or two records of a file;
* `filesFrom_packing`: the file they give back;
* `files_pack`: the files of an archive are those that were packed into it.
-/

namespace Isolate.Archive

/-! ### Names as bytes -/

theorem length_nameBytes (cs : List Char) : (nameBytes cs).length = byteCount cs := by
  induction cs with
  | nil => rfl
  | cons c cs ih =>
    rw [nameBytes, List.flatMap_cons, List.length_append, String.length_utf8EncodeChar]
    exact congrArg _ ih

theorem zero_ne_ofNat {n : ℕ} (pos : 0 < n) (h : n < 256) : (0 : UInt8) ≠ UInt8.ofNat n := by
  intro heq
  have hn := congrArg UInt8.toNat heq
  rw [UInt8.toNat_ofNat_of_lt' h] at hn
  exact pos.ne hn

theorem zero_notMem_utf8EncodeChar {c : Char} (h : c ≠ '\x00') : 0 ∉ String.utf8EncodeChar c := by
  have hval : 0 < c.val.toNat :=
    Nat.pos_of_ne_zero fun hz => h (Char.ext (UInt32.toNat_inj.1 hz))
  unfold String.utf8EncodeChar
  intro hmem
  dsimp only at hmem
  split_ifs at hmem <;> simp only [List.mem_cons, List.not_mem_nil, or_false] at hmem
  · exact zero_ne_ofNat hval (by omega) hmem
  · rcases hmem with h | h <;> exact zero_ne_ofNat (by omega) (by omega) h
  · rcases hmem with h | h | h <;> exact zero_ne_ofNat (by omega) (by omega) h
  · rcases hmem with h | h | h | h <;> exact zero_ne_ofNat (by omega) (by omega) h

theorem zero_notMem_nameBytes {cs : List Char} (h : '\x00' ∉ cs) : 0 ∉ nameBytes cs := by
  intro hmem
  obtain ⟨c, hc, hbyte⟩ := List.mem_flatMap.1 hmem
  exact zero_notMem_utf8EncodeChar (fun heq => h (heq ▸ hc)) hbyte

/-! ### Records -/

/-- A header and the data that follows it. -/
structure Record where
  header : Header
  data : Bytes

/-- The fields of the header hold what is put into them, and it counts the data. -/
structure Record.Sound (r : Record) : Prop where
  fits : r.header.Fits
  size : r.header.size = r.data.length

/-- The blocks of a record. -/
def Record.blocks (r : Record) : Bytes := r.header.block ++ padded r.data

/-- The entry that is found where the record stands. -/
def Record.entry (r : Record) : Entry :=
  ⟨{ r.header with modified := readNumber (numberField 12 r.header.modified) }, magic, true, r.data⟩

theorem length_padded (data : Bytes) : (padded data).length = paddedSize data.length := by
  have hdiv := Nat.div_add_mod data.length blockSize
  simp only [padded, paddedSize, List.length_append, length_nulls, blockSize] at hdiv ⊢
  omega

theorem length_blocks (r : Record) :
    r.blocks.length = blockSize * (1 + (r.data.length + (blockSize - 1)) / blockSize) := by
  rw [Record.blocks, List.length_append, Header.length_block, length_padded, paddedSize,
    Nat.mul_add, Nat.mul_one, Nat.mul_comm blockSize]

/-- Reading goes past a record, whatever its data looks like. -/
theorem entriesFrom_record {r : Record} (sound : r.Sound) (fuel : ℕ) (rest : Bytes) :
    entriesFrom (fuel + 1) (r.blocks ++ rest) =
      (r.entry :: (entriesFrom fuel rest).1, (entriesFrom fuel rest).2) := by
  have htake : (r.blocks ++ rest).take blockSize = r.header.block := by
    rw [Record.blocks, List.append_assoc]
    exact List.take_left' r.header.length_block
  have hdrop : (r.blocks ++ rest).drop blockSize = padded r.data ++ rest := by
    rw [Record.blocks, List.append_assoc]
    exact List.drop_left' r.header.length_block
  have hheader : Header.ofBlock r.header.block = r.entry.header := Header.ofBlock_block sound.fits
  have hsize : r.entry.header.size = r.data.length := sound.size
  have hdata : (padded r.data ++ rest).take r.data.length = r.data := by
    rw [padded, List.append_assoc]
    exact List.take_left' rfl
  have hrest : (padded r.data ++ rest).drop (paddedSize r.data.length) = rest :=
    List.drop_left' (length_padded r.data)
  have hgo : ¬(decide (r.header.block.length < blockSize) ||
      r.header.block.all (· == 0)) = true := by
    simp [Header.block_ne_zeros]
  rw [entriesFrom]
  simp only [htake, hdrop, if_neg hgo, hheader, hsize, hdata, hrest, Header.magic_block,
    Header.checksumHolds_block]
  rfl

/-- Reading ends at the blocks of zeros. -/
theorem entriesFrom_nulls (fuel : ℕ) :
    entriesFrom fuel (nulls (2 * blockSize)) = ([], nulls (2 * blockSize)) := by
  cases fuel with
  | zero => rfl
  | succ fuel =>
    have hzeros : ((nulls (2 * blockSize)).take blockSize).all (· == 0) = true := by
      rw [nulls, List.take_replicate]
      simp
    rw [entriesFrom, if_pos (by rw [hzeros, Bool.or_true])]

/-- The bytes of an archive of records. -/
def archiveOf (rs : List Record) : Bytes := rs.flatMap Record.blocks ++ nulls (2 * blockSize)

theorem entriesFrom_records {rs : List Record} (sound : ∀ r ∈ rs, r.Sound) (fuel : ℕ) :
    entriesFrom (rs.length + fuel) (archiveOf rs) =
      (rs.map Record.entry, nulls (2 * blockSize)) := by
  induction rs with
  | nil => exact entriesFrom_nulls _
  | cons r rs ih =>
    have hrest := ih fun s hs => sound s (List.mem_cons_of_mem r hs)
    rw [archiveOf, List.flatMap_cons, List.append_assoc, List.length_cons, Nat.add_right_comm,
      entriesFrom_record (sound r List.mem_cons_self)]
    rw [archiveOf] at hrest
    rw [hrest]
    rfl

/-- Records take whole blocks, at least one each. -/
theorem length_records (rs : List Record) :
    ∃ more, (rs.flatMap Record.blocks).length = blockSize * (rs.length + more) := by
  induction rs with
  | nil => exact ⟨0, rfl⟩
  | cons r rs ih =>
    obtain ⟨more, ih⟩ := ih
    refine ⟨(r.data.length + (blockSize - 1)) / blockSize + more, ?_⟩
    rw [List.flatMap_cons, List.length_append, length_blocks, ih, ← Nat.mul_add, List.length_cons]
    congr 1
    omega

theorem dvd_length_archiveOf (rs : List Record) : blockSize ∣ (archiveOf rs).length := by
  obtain ⟨more, h⟩ := length_records rs
  rw [archiveOf, List.length_append, h, length_nulls, Nat.mul_comm 2, ← Nat.mul_add]
  exact Nat.dvd_mul_right _ _

/-- **The records of an archive are read back**, up to the blocks of zeros. -/
theorem entries_records {rs : List Record} (sound : ∀ r ∈ rs, r.Sound) :
    entries (archiveOf rs) = (rs.map Record.entry, nulls (2 * blockSize)) := by
  obtain ⟨more, h⟩ := length_records rs
  have enough : (archiveOf rs).length / blockSize + 1 = rs.length + (more + 3) := by
    rw [archiveOf, List.length_append, h, length_nulls, Nat.mul_comm 2, ← Nat.mul_add,
      Nat.mul_div_cancel_left _ (by decide)]
    omega
  rw [entries, enough]
  exact entriesFrom_records sound _

/-! ### The records of a file -/

/-- The name and the data take less than 2⁶³ bytes each, as byte strings in memory do. -/
structure File.Storable (f : File) : Prop where
  name : byteCount f.name.toList < bound63
  data : f.data.length < bound63

instance (f : File) : Decidable f.Storable :=
  decidable_of_iff (byteCount f.name.toList < bound63 ∧ f.data.length < bound63)
    ⟨fun h => ⟨h.1, h.2⟩, fun h => ⟨h.name, h.data⟩⟩

/-- The record of a file whose header holds the given name. -/
def fileRecord (stamp : ℕ) (stored : List Char) (data : Bytes) : Record :=
  ⟨⟨nameBytes stored, fileMode, data.length, stamp, .file⟩, data⟩

/-- The record that gives its name to the next one. -/
def nameRecord (name : List Char) : Record :=
  ⟨⟨Utf8.encode longNameMark, fileMode, (nameBytes name ++ [0]).length, 0, .longName⟩,
    nameBytes name ++ [0]⟩

/-- The records of a file: one if its name can be stored, else one more for the name. -/
inductive Packing (stamp : ℕ) (f : File) : List Record → Prop
  | short (stored : List Char) (h : store false f.name.toList = .ok stored) :
      Packing stamp f [fileRecord stamp stored f.data]
  | long (stored : List Char)
      (h : store true (wholePrefix nameSize f.name.toList) = .ok stored) :
      Packing stamp f [nameRecord f.name.toList, fileRecord stamp stored f.data]

theorem packing_of_entry {stamp : ℕ} {f : File} {bytes : Bytes} (h : entry stamp f = .ok bytes) :
    ∃ rs, Packing stamp f rs ∧ bytes = rs.flatMap Record.blocks := by
  unfold entry at h
  dsimp only at h
  split at h
  · rename_i stored hstored
    cases h
    exact ⟨_, .short stored hstored, (List.append_nil _).symm⟩
  · split_ifs at h
    split at h
    · rename_i stored hstored
      cases h
      refine ⟨_, .long stored hstored, ?_⟩
      rw [List.flatMap_cons, List.flatMap_cons, List.flatMap_nil, List.append_nil]
      rfl
    · cases h

theorem fileMode_lt : fileMode < Nat.pow 8 7 := by decide

theorem longNameMark_fits : (Utf8.encode longNameMark).length ≤ nameSize ∧
    0 ∉ Utf8.encode longNameMark := by decide +kernel

theorem bound63_lt : bound63 < 128 * Nat.pow 256 11 := by decide

theorem sound_fileRecord {stored : List Char} (fits : Fits stored) {data : Bytes}
    (h : data.length < bound63) (stamp : ℕ) : (fileRecord stamp stored data).Sound where
  fits := {
    name := (length_nameBytes stored).trans_le fits.size
    nonzero := zero_notMem_nameBytes fits.nonzero
    mode := fileMode_lt
    size := h.trans bound63_lt
    kind := Or.inl rfl }
  size := rfl

theorem sound_nameRecord {name : List Char} (h : byteCount name < bound63) :
    (nameRecord name).Sound where
  fits := {
    name := longNameMark_fits.1
    nonzero := longNameMark_fits.2
    mode := fileMode_lt
    size := by
      have hlength : (nameBytes name ++ [0]).length = byteCount name + 1 := by
        rw [List.length_append, length_nameBytes]
        rfl
      have hname : (nameBytes name ++ [0]).length ≤ bound63 := hlength ▸ h
      exact hname.trans_lt bound63_lt
    kind := Or.inr rfl }
  size := rfl

theorem Packing.sound {stamp : ℕ} {f : File} {rs : List Record} (packing : Packing stamp f rs)
    (storable : f.Storable) : ∀ r ∈ rs, r.Sound := by
  cases packing with
  | short stored h =>
    rintro r (_ | ⟨_, ⟨⟩⟩)
    exact sound_fileRecord (fits_of_store h).2 storable.data stamp
  | long stored h =>
    rintro r (_ | ⟨_, _ | ⟨_, ⟨⟩⟩⟩)
    · exact sound_nameRecord storable.name
    · exact sound_fileRecord (fits_of_store h).2 storable.data stamp

/-- What stands in an archive for a file: its name as it is or as it can be stored, and the record
with its data. -/
def Returned (stamp : ℕ) (f : File) (r : Bytes × Entry) : Prop :=
  ∃ name stored, (name = f.name.toList ∨ store false f.name.toList = .ok name) ∧
    r = (nameBytes name, (fileRecord stamp stored f.data).entry)

/-- The records of a file give back the file. -/
theorem filesFrom_packing {stamp : ℕ} {f : File} {rs : List Record} (packing : Packing stamp f rs)
    (es : List Entry) : ∃ r, Returned stamp f r ∧
      filesFrom none (rs.map Record.entry ++ es) = r :: filesFrom none es := by
  cases packing with
  | short stored h => exact ⟨_, ⟨stored, stored, Or.inr h, rfl⟩, rfl⟩
  | long stored h =>
    have hname : (nameBytes f.name.toList ++ [0]).dropLast = nameBytes f.name.toList :=
      List.dropLast_concat
    refine ⟨_, ⟨f.name.toList, stored, Or.inl rfl, rfl⟩, ?_⟩
    simp only [List.map_cons, List.cons_append, List.map_nil, List.nil_append, filesFrom,
      nameRecord, fileRecord, Record.entry, hname, Option.getD_some]

/-! ### Archives -/

theorem packings_of_entries {stamp : ℕ} {fs : List File} {parts : List Bytes}
    (h : List.Forall₂ (fun f part => entry stamp f = .ok part) fs parts) :
    ∃ rss, List.Forall₂ (Packing stamp) fs rss ∧
      parts.flatten = rss.flatten.flatMap Record.blocks := by
  induction h with
  | nil => exact ⟨[], .nil, rfl⟩
  | cons hentry _ ih =>
    obtain ⟨rs, packing, rfl⟩ := packing_of_entry hentry
    obtain ⟨rss, packings, ih⟩ := ih
    refine ⟨rs :: rss, .cons packing packings, ?_⟩
    rw [List.flatten_cons, ih, List.flatten_cons, List.flatMap_append]

/-- An archive holds the records of its files, one file after the other. -/
theorem packings_of_pack {stamp : ℕ} {fs : List File} {archive : Bytes}
    (h : pack stamp fs = .ok archive) :
    ∃ rss, List.Forall₂ (Packing stamp) fs rss ∧ archive = archiveOf rss.flatten := by
  obtain ⟨parts, hparts, h⟩ := bind_eq_ok.1 h
  cases h
  obtain ⟨rss, packings, hflat⟩ := packings_of_entries (exists_of_mapM_eq_ok hparts)
  exact ⟨rss, packings, by rw [archiveOf, hflat]⟩

theorem filesFrom_packings {stamp : ℕ} {fs : List File} {rss : List (List Record)}
    (packings : List.Forall₂ (Packing stamp) fs rss) :
    List.Forall₂ (Returned stamp) fs (filesFrom none (rss.flatten.map Record.entry)) := by
  induction packings with
  | nil => exact .nil
  | cons packing _ ih =>
    obtain ⟨r, returned, hr⟩ := filesFrom_packing packing _
    rw [List.flatten_cons, List.map_append, hr]
    exact .cons returned ih

theorem sound_packings {stamp : ℕ} {fs : List File} {rss : List (List Record)}
    (packings : List.Forall₂ (Packing stamp) fs rss) (storable : ∀ f ∈ fs, f.Storable) :
    ∀ r ∈ rss.flatten, r.Sound := by
  induction packings with
  | nil => exact nofun
  | cons packing _ ih =>
    rw [List.flatten_cons, List.forall_mem_append]
    exact ⟨packing.sound (storable _ List.mem_cons_self),
      ih fun f hf => storable f (List.mem_cons_of_mem _ hf)⟩

/-- Reading an archive gives the records that stand in it for its files. -/
theorem entries_pack {stamp : ℕ} {fs : List File} {archive : Bytes}
    (storable : ∀ f ∈ fs, f.Storable) (h : pack stamp fs = .ok archive) :
    ∃ rss, List.Forall₂ (Packing stamp) fs rss ∧ archive = archiveOf rss.flatten ∧
      entries archive = (rss.flatten.map Record.entry, nulls (2 * blockSize)) := by
  obtain ⟨rss, packings, rfl⟩ := packings_of_pack h
  exact ⟨rss, packings, rfl, entries_records (sound_packings packings storable)⟩

theorem returned_pack {stamp : ℕ} {fs : List File} {archive : Bytes}
    (storable : ∀ f ∈ fs, f.Storable) (h : pack stamp fs = .ok archive) :
    List.Forall₂ (Returned stamp) fs (files archive) := by
  obtain ⟨rss, packings, rfl, hentries⟩ := entries_pack storable h
  rw [files, hentries]
  exact filesFrom_packings packings

/-- What an unpacked file has of the file that was packed: its name up to single dots and repeated
slashes, and its data. It is a regular file which its owner may write and everybody may read. -/
structure Unpacked (f : File) (name : Bytes) (e : Entry) : Prop where
  name : ∃ path, name = nameBytes path ∧ SamePath path f.name.toList
  data : e.data = f.data
  kind : e.header.kind = .file
  mode : e.header.mode = 0o644
  checksum : e.checksumHolds = true

theorem Returned.unpacked {stamp : ℕ} {f : File} {r : Bytes × Entry}
    (h : Returned stamp f r) : Unpacked f r.1 r.2 := by
  obtain ⟨name, stored, hname, rfl⟩ := h
  refine ⟨⟨name, rfl, ?_⟩, rfl, rfl, rfl, rfl⟩
  rcases hname with rfl | hname
  · exact SamePath.refl _
  · exact samePath_of_store hname

/-- **Unpacking undoes packing.** Whatever the files are called and contain, an archive gives back
each of them once and in order. It takes whole blocks, ends in two blocks of zeros and is read up to
those, and the checksums of all its entries hold. -/
theorem files_pack (stamp : ℕ) (fs : List File) (archive : Bytes)
    (storable : ∀ f ∈ fs, f.Storable) (h : pack stamp fs = .ok archive) :
    List.Forall₂ (fun f r => Unpacked f r.1 r.2) fs (files archive) ∧
      (∀ e ∈ (entries archive).1, e.checksumHolds = true ∧ e.magic = magic) ∧
      blockSize ∣ archive.length ∧ nulls (2 * blockSize) <:+ archive ∧
      (entries archive).2 = nulls (2 * blockSize) := by
  have hfiles := (returned_pack storable h).imp fun _ _ => Returned.unpacked
  obtain ⟨rss, packings, rfl, hentries⟩ := entries_pack storable h
  refine ⟨hfiles, ?_, dvd_length_archiveOf _, List.suffix_append _ _, congrArg Prod.snd hentries⟩
  intro e he
  rw [hentries] at he
  obtain ⟨r, -, rfl⟩ := List.mem_map.1 he
  exact ⟨rfl, rfl⟩

/-- A file whose data looks like the end of an archive, stored under another name, and an empty file
whose name does not fit a header and would be cut inside a character. -/
def oddFiles : List File :=
  [⟨".//a/./b", Header.block ⟨[97], fileMode, 0, 0, .file⟩ ++ nulls (2 * blockSize)⟩,
    ⟨String.ofList (List.replicate 33 '€' ++ ['é', '/', '.', '.', '/', 'x']), []⟩]

theorem files_pack_oddFiles : ∃ archive, pack 7 oddFiles = .ok archive ∧
    List.Forall₂ (fun f r => Unpacked f r.1 r.2) oddFiles (files archive) ∧
      (∀ e ∈ (entries archive).1, e.checksumHolds = true ∧ e.magic = magic) ∧
      blockSize ∣ archive.length ∧ nulls (2 * blockSize) <:+ archive ∧
      (entries archive).2 = nulls (2 * blockSize) := by
  have storable : ∀ f ∈ oddFiles, f.Storable := by decide +kernel
  have hpack : (pack 7 oddFiles).isOk = true := by decide +kernel
  cases h : pack 7 oddFiles with
  | error e => rw [h] at hpack; cases hpack
  | ok archive => exact ⟨archive, rfl, files_pack 7 oddFiles archive storable h⟩

end Isolate.Archive
