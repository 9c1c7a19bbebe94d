import Isolate.Proofs.Archive.Unpacking

/-!
# Archives packed at different times

The time at which files are packed goes into the time stamps of their headers and nowhere else.

* `SameRecords`, `SameButTime`: the same records and the same archives, up to the time stamps;
* `entry_stamps`, `pack_stamps`: the same files, packed with two time stamps.
-/

namespace Isolate.Archive

/-- The record, without its time stamp. -/
def Record.timeless (r : Record) : Record := { r with header := { r.header with modified := 0 } }

/-- The blocks of the same records, up to their time stamps. -/
def SameRecords (bytes bytes' : Bytes) : Prop :=
  ∃ rs rs' : List Record, bytes = rs.flatMap Record.blocks ∧ bytes' = rs'.flatMap Record.blocks ∧
    rs.map Record.timeless = rs'.map Record.timeless

/-- Archives of the same records, up to their time stamps. -/
def SameButTime (a a' : Bytes) : Prop :=
  ∃ bytes bytes', SameRecords bytes bytes' ∧ a = bytes ++ nulls (2 * blockSize) ∧
    a' = bytes' ++ nulls (2 * blockSize)

theorem SameRecords.nil : SameRecords [] [] := ⟨[], [], rfl, rfl, rfl⟩

theorem SameRecords.single (r r' : Record) (h : r.timeless = r'.timeless) :
    SameRecords r.blocks r'.blocks :=
  ⟨[r], [r'], (List.append_nil _).symm, (List.append_nil _).symm,
    congrArg (fun r => [r]) h⟩

theorem SameRecords.append {a a' b b' : Bytes} (h : SameRecords a a') (h' : SameRecords b b') :
    SameRecords (a ++ b) (a' ++ b') := by
  obtain ⟨rs, rs', rfl, rfl, hrs⟩ := h
  obtain ⟨qs, qs', rfl, rfl, hqs⟩ := h'
  exact ⟨rs ++ qs, rs' ++ qs', List.flatMap_append.symm, List.flatMap_append.symm,
    by rw [List.map_append, hrs, hqs, List.map_append]⟩

variable (stamp stamp' : ℕ)

/-- The same file has the same blocks, or cannot be packed for the same reason. -/
theorem entry_stamps (f : File) :
    (∃ part part', entry stamp f = .ok part ∧ entry stamp' f = .ok part' ∧ SameRecords part part') ∨
      ∃ e, entry stamp f = .error e ∧ entry stamp' f = .error e := by
  have hfile (stored : List Char) : SameRecords (fileEntry stamp stored f.data)
      (fileEntry stamp' stored f.data) :=
    .single (fileRecord stamp stored f.data) (fileRecord stamp' stored f.data) rfl
  have hname : SameRecords (longNameEntry (nameBytes f.name.toList))
      (longNameEntry (nameBytes f.name.toList)) :=
    .single (nameRecord f.name.toList) (nameRecord f.name.toList) rfl
  unfold entry
  dsimp only
  cases store false f.name.toList with
  | ok stored => exact Or.inl ⟨_, _, rfl, rfl, hfile stored⟩
  | error e =>
    dsimp only
    split_ifs
    · exact Or.inr ⟨_, rfl, rfl⟩
    · cases store true (wholePrefix nameSize f.name.toList) with
      | ok stored => exact Or.inl ⟨_, _, rfl, rfl, hname.append (hfile stored)⟩
      | error e => exact Or.inr ⟨_, rfl, rfl⟩

theorem mapM_entry_stamps (fs : List File) :
    (∃ parts parts' : List Bytes, fs.mapM (entry stamp) = .ok parts ∧
        fs.mapM (entry stamp') = .ok parts' ∧ SameRecords parts.flatten parts'.flatten) ∨
      ∃ e, fs.mapM (entry stamp) = .error e ∧ fs.mapM (entry stamp') = .error e := by
  induction fs with
  | nil => exact Or.inl ⟨[], [], rfl, rfl, .nil⟩
  | cons f fs ih =>
    simp only [List.mapM_cons]
    rcases entry_stamps stamp stamp' f with ⟨part, part', hf, hf', hpart⟩ | ⟨e, hf, hf'⟩
    · rcases ih with ⟨parts, parts', h, h', hparts⟩ | ⟨e, h, h'⟩
      · rw [hf, hf', h, h']
        exact Or.inl ⟨part :: parts, part' :: parts', rfl, rfl, hpart.append hparts⟩
      · rw [hf, hf', h, h']
        exact Or.inr ⟨e, rfl, rfl⟩
    · rw [hf, hf']
      exact Or.inr ⟨e, rfl, rfl⟩

/-- **Files that are packed twice** give the same archive up to the time stamps, or the same
error. -/
theorem pack_stamps (fs : List File) :
    (∃ a a', pack stamp fs = .ok a ∧ pack stamp' fs = .ok a' ∧ SameButTime a a') ∨
      ∃ e, pack stamp fs = .error e ∧ pack stamp' fs = .error e := by
  unfold pack
  rcases mapM_entry_stamps stamp stamp' fs with ⟨parts, parts', h, h', hparts⟩ | ⟨e, h, h'⟩
  · rw [h, h']
    exact Or.inl ⟨_, _, rfl, rfl, _, _, hparts, rfl, rfl⟩
  · rw [h, h']
    exact Or.inr ⟨e, rfl, rfl⟩

end Isolate.Archive
