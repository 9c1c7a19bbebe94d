import Isolate.Language
import Isolate.Proofs.Archive.Unpacking

/-!
# Which submissions reach their container

A submission goes into its container as an archive of two files, and the name of the source file is
not free of dots and zero bytes.

* `destination`, `LiesDirectly`: where a path leads from the directory in which it starts;
* `Plain`, `plain_sourceFile`: what is known of the name of a source file;
* `exists_pack_iff`, `exists_entry_iff`: when files are packed, and when a plain name is;
* `delivery_of_submission`: which submissions are packed, and where their files end up.
-/

namespace Isolate.Archive

/-! ### Where paths lead -/

/-- Going on along a path from a place, which is given by the names on the way to it, the last one
first. Nothing is known of what lies above the directory in which the path starts. -/
def descend : List (List Char) → List (List Char) → Option (List (List Char))
  | place, [] => some place
  | place, p :: ps =>
    if p = [] ∨ p = ['.'] then descend place ps
    else if p = ['.', '.'] then place.tail?.bind fun above => descend above ps
    else descend (p :: place) ps

/-- The place to which a path leads, seen from the directory in which it starts. A path with a zero
byte leads nowhere. -/
def destination (path : List Char) : Option (List (List Char)) :=
  if '\x00' ∈ path ∨ path.head? = some '/' then none else descend [] (parts path)

/-- The path leads to a place in the very directory in which it starts. -/
def LiesDirectly (path : List Char) : Prop := ∃ name, destination path = some [name]

/-- The name is not empty and does not leave a directory. -/
structure Plain (name : List Char) : Prop where
  ne_nil : name ≠ []
  slash : '/' ∉ name
  dots : ¬['.', '.'] <+: name

theorem Plain.of_prefix {name start : List Char} (h : Plain name) (hstart : start <+: name)
    (hne : start ≠ []) : Plain start where
  ne_nil := hne
  slash := fun hmem => h.slash (hstart.subset hmem)
  dots := fun hdots => h.dots (hdots.trans hstart)

theorem Plain.ne_dots {name : List Char} (h : Plain name) : name ≠ ['.', '.'] :=
  fun heq => h.dots (heq ▸ List.prefix_rfl)

theorem plain_sourceFile (source : SourceFile) : Plain source.name.toList := by
  have h := source.plain
  simp only [isSourceFileName, Bool.not_eq_true', Bool.or_eq_false_iff] at h
  obtain ⟨⟨⟨hempty, hslash⟩, hdots⟩, -⟩ := h
  refine ⟨fun hnil => ?_, fun hmem => ?_, ?_⟩
  · rw [hnil] at hempty
    cases hempty
  · rw [List.contains_iff_mem.2 hmem] at hslash
    cases hslash
  · rintro ⟨rest, hrest⟩
    rw [← hrest] at hdots
    cases hdots

theorem plain_inputFileName : Plain inputFileName.toList :=
  ⟨by decide +kernel, by decide +kernel, by decide +kernel⟩

theorem inputFileName_nonzero : '\x00' ∉ wholePrefix nameSize inputFileName.toList := by
  decide +kernel

theorem ne_inputFileName (source : SourceFile) : source.name ≠ inputFileName := by
  have h := source.plain
  simp only [isSourceFileName, Bool.not_eq_true', Bool.or_eq_false_iff] at h
  exact beq_eq_false_iff_ne.1 h.2

/-- A plain name leads to a place directly in the directory, unless it is that directory's own name
or no name for a file at all. -/
theorem liesDirectly_iff {name : List Char} (plain : Plain name) :
    LiesDirectly name ↔ name ≠ ['.'] ∧ '\x00' ∉ name := by
  unfold LiesDirectly destination
  rw [parts_of_notMem plain.slash]
  by_cases hnul : '\x00' ∈ name
  · simp [hnul]
  · have hrelative := (trim_of_notMem plain.slash).1
    by_cases hdot : name = ['.']
    · simp [hdot, descend]
    · simp [hnul, hrelative, hdot, descend, plain.ne_nil, plain.ne_dots]

/-! ### What can be packed -/

/-- Files are packed if each of them is. -/
theorem exists_pack_iff {stamp : ℕ} {fs : List File} : (∃ archive, pack stamp fs = .ok archive) ↔
    ∀ f ∈ fs, ∃ bytes, entry stamp f = .ok bytes := by
  have hmap : (∃ archive, pack stamp fs = .ok archive) ↔
      ∃ parts, fs.mapM (entry stamp) = .ok parts := by
    simp only [pack, bind_eq_ok]
    exact ⟨fun ⟨_, parts, h, _⟩ => ⟨parts, h⟩, fun ⟨parts, h⟩ => ⟨_, parts, h, rfl⟩⟩
  rw [hmap]
  clear hmap
  induction fs with
  | nil => exact iff_of_true ⟨[], rfl⟩ nofun
  | cons f fs ih =>
    simp only [List.forall_mem_cons, ← ih, List.mapM_cons, bind_eq_ok]
    constructor
    · rintro ⟨_, bytes, hbytes, parts, hparts, -⟩
      exact ⟨⟨bytes, hbytes⟩, ⟨parts, hparts⟩⟩
    · rintro ⟨⟨bytes, hbytes⟩, ⟨parts, hparts⟩⟩
      exact ⟨_, bytes, hbytes, parts, hparts, rfl⟩

theorem wholePrefix_prefix (room : ℕ) (cs : List Char) : wholePrefix room cs <+: cs := by
  induction cs generalizing room with
  | nil => exact List.prefix_rfl
  | cons c cs ih =>
    rw [wholePrefix]
    split_ifs
    · exact (List.prefix_cons_inj c).2 (ih _)
    · exact List.nil_prefix

theorem byteCount_wholePrefix (room : ℕ) (cs : List Char) :
    byteCount (wholePrefix room cs) ≤ room := by
  induction cs generalizing room with
  | nil => exact Nat.zero_le _
  | cons c cs ih =>
    rw [wholePrefix]
    split_ifs with h
    · have hrest := ih (room - c.utf8Size)
      rw [byteCount]
      omega
    · exact Nat.zero_le _

theorem wholePrefix_of_le {room : ℕ} {cs : List Char} (h : byteCount cs ≤ room) :
    wholePrefix room cs = cs := by
  induction cs generalizing room with
  | nil => rfl
  | cons c cs ih =>
    rw [byteCount] at h
    rw [wholePrefix, if_pos (by omega), ih (by omega)]

theorem wholePrefix_ne_nil {room : ℕ} {cs : List Char} (hroom : 4 ≤ room) (hne : cs ≠ []) :
    wholePrefix room cs ≠ [] := by
  obtain ⟨c, cs, rfl⟩ := List.exists_cons_of_ne_nil hne
  rw [wholePrefix, if_pos (c.utf8Size_le_four.trans hroom)]
  exact List.cons_ne_nil _ _

/-- A plain name can be stored if it fits, or if its beginning does. Only a zero byte near its
beginning is in the way. -/
theorem exists_entry_iff {stamp : ℕ} {f : File} (plain : Plain f.name.toList) :
    (∃ bytes, entry stamp f = .ok bytes) ↔ '\x00' ∉ wholePrefix nameSize f.name.toList := by
  have hstart := wholePrefix_prefix nameSize f.name.toList
  have start := plain.of_prefix hstart (wholePrefix_ne_nil (by decide) plain.ne_nil)
  have hstore (stored : List Char) :=
    @store_of_notMem false _ stored plain.slash plain.ne_nil plain.ne_dots
  have hcut (stored : List Char) :=
    @store_of_notMem true _ stored start.slash start.ne_nil start.ne_dots
  constructor
  · rintro ⟨bytes, h⟩
    obtain ⟨rs, packing, -⟩ := packing_of_entry h
    cases packing with
    | short stored h => exact fun hmem => ((hstore stored).1 h).1.nonzero (hstart.subset hmem)
    | long stored h => exact ((hcut stored).1 h).1.nonzero
  · intro hnul
    have hok := (hcut _).2 ⟨⟨byteCount_wholePrefix _ _, hnul⟩, rfl⟩
    unfold entry
    dsimp only
    cases h : store false f.name.toList with
    | ok stored => exact ⟨_, rfl⟩
    | error e =>
      have hlong : ¬byteCount f.name.toList < nameSize := by
        intro hlt
        rw [wholePrefix_of_le hlt.le] at hnul
        rw [(hstore _).2 ⟨⟨hlt.le, hnul⟩, rfl⟩] at h
        cases h
      dsimp only
      rw [if_neg hlong, hok]
      exact ⟨_, rfl⟩

theorem encode_injective : Function.Injective Utf8.encode := by
  intro s t h
  have hbytes : s.toList.utf8Encode = t.toList.utf8Encode := congrArg List.toByteArray h
  rwa [String.utf8Encode_toList, String.utf8Encode_toList, String.toByteArray_inj] at hbytes

/-- A plain name is read back as it is. -/
theorem Returned.of_plain {stamp : ℕ} {f : File} {r : Bytes × Entry} (h : Returned stamp f r)
    (plain : Plain f.name.toList) : (r.1, r.2.data) = (Utf8.encode f.name, f.data) := by
  obtain ⟨name, stored, hname, rfl⟩ := h
  have heq : name = f.name.toList :=
    hname.elim id fun h => ((store_of_notMem plain.slash plain.ne_nil plain.ne_dots).1 h).2
  rw [heq]
  rfl

/-! ### Submissions -/

/-- The files of a submission with input. -/
def submission (source : SourceFile) (code input : String) : List File :=
  [⟨source.name, Utf8.encode code⟩, ⟨inputFileName, Utf8.encode input⟩]

/-- **Which submissions are delivered.** A submission is packed if and only if there is no zero byte
in the first hundred bytes of the name of its source file. Its files are then read back under
their two different names and with their texts. The input file always ends up directly in the
directory in which the archive is unpacked, and the source file does unless its name is a single
dot or has a zero byte. -/
theorem delivery_of_submission (stamp : ℕ) (source : SourceFile) (code input : String)
    (storable : ∀ f ∈ submission source code input, f.Storable) :
    ((∃ archive, pack stamp (submission source code input) = .ok archive) ↔
      '\x00' ∉ wholePrefix nameSize source.name.toList) ∧
    (∀ archive, pack stamp (submission source code input) = .ok archive →
      (files archive).map (fun r => (r.1, r.2.data)) =
        [(Utf8.encode source.name, Utf8.encode code),
          (Utf8.encode inputFileName, Utf8.encode input)]) ∧
    Utf8.encode source.name ≠ Utf8.encode inputFileName ∧
    LiesDirectly inputFileName.toList ∧
    (LiesDirectly source.name.toList ↔ source.name ≠ "." ∧ '\x00' ∉ source.name.toList) := by
  have plain := plain_sourceFile source
  refine ⟨?_, fun archive h => ?_, ?_, ?_, ?_⟩
  · have hinput : ∃ bytes, entry stamp ⟨inputFileName, Utf8.encode input⟩ = .ok bytes :=
      (exists_entry_iff plain_inputFileName).2 inputFileName_nonzero
    rw [exists_pack_iff, submission, List.forall_mem_cons, List.forall_mem_singleton,
      exists_entry_iff plain]
    exact and_iff_left hinput
  · obtain ⟨r, rs, returned, hrest, hfiles⟩ := List.forall₂_cons_left_iff.1
      (returned_pack storable h)
    obtain ⟨r', rs', returned', hnil, hfiles'⟩ := List.forall₂_cons_left_iff.1 hrest
    rw [hfiles, hfiles', List.forall₂_nil_left_iff.1 hnil, List.map_cons, List.map_cons,
      returned.of_plain plain, returned'.of_plain plain_inputFileName]
    rfl
  · exact fun h => ne_inputFileName source (encode_injective h)
  · exact (liesDirectly_iff plain_inputFileName).2 ⟨by decide +kernel, by decide +kernel⟩
  · rw [liesDirectly_iff plain]
    refine and_congr_left fun _ => not_congr ⟨fun h => ?_, fun h => by rw [h]; rfl⟩
    exact String.toList_inj.1 h

/-- A source file that is called like the directory it lies in. -/
def dotFile : SourceFile := ⟨".", by decide +kernel⟩

theorem delivery_of_submission_dotFile :
    (∃ archive, pack 7 (submission dotFile "print(1)" "2") = .ok archive) ∧
      ¬LiesDirectly dotFile.name.toList := by
  have storable : ∀ f ∈ submission dotFile "print(1)" "2", f.Storable := by decide +kernel
  obtain ⟨hpack, -, -, -, hplace⟩ := delivery_of_submission 7 dotFile "print(1)" "2" storable
  exact ⟨hpack.2 (by decide +kernel), fun hlies => (hplace.1 hlies).1 rfl⟩

end Isolate.Archive
