import Isolate.Proofs.Data
import Isolate.Proofs.Json.Numbers

/-!
# JSON documents read back

What is written of a tree is read as that tree.

* `readString_quoted`: any string is read as it is written, whatever its characters;
* `Writable`: the trees that a document can hold;
* `readsBack`: such a tree is read as it is written, whatever blanks stand between its parts;
* `readBy_entry`: documents with such a tree in them;
* `Writable.settled_eq`: no value in such a tree hides another one.
-/

namespace Isolate.Json

variable {c : Char} {blanks cs read rest : List Char}

/-! ### Blanks -/

theorem skipBlanks_append (h : ∀ c ∈ blanks, isBlank c = true) :
    skipBlanks (blanks ++ cs) = skipBlanks cs := List.dropWhile_append_of_pos h

theorem skipBlanks_cons (h : isBlank c = false) : skipBlanks (c :: cs) = c :: cs := by
  simp [skipBlanks, h]

/-- A numeral ends at blanks. -/
theorem endsNumeral_append (h : ∀ c ∈ blanks, isBlank c = true) (hrest : EndsNumeral rest) :
    EndsNumeral (blanks ++ rest) := by
  cases blanks with
  | nil => exact hrest
  | cons b bs =>
    rintro _ ⟨⟩
    have hb := h b List.mem_cons_self
    rw [isBlank, decide_eq_true_iff] at hb
    rcases hb with rfl | rfl | rfl | rfl <;> decide

/-- A numeral ends at a comma or a closing bracket. -/
theorem endsNumeral_cons (hc : c = ',' ∨ c = ']' ∨ c = '}') : EndsNumeral (c :: cs) := by
  rintro _ ⟨⟩
  rcases hc with rfl | rfl | rfl <;> decide

/-! ### Strings -/

/-- The two digits that are written for a control character. -/
theorem hexQuad?_hexDigit :
    ∀ n < 32, hexQuad? '0' '0' (hexDigit (n / 16)) (hexDigit (n % 16)) = some n := by
  decide

/-- A character of a string is read as it is written. -/
theorem readStringFrom_escaped (c : Char) (read rest : List Char) :
    readStringFrom read (escaped c ++ rest) = readStringFrom (c :: read) rest := by
  unfold escaped
  split
  · rw [List.cons_append, readStringFrom.eq_def]; rfl
  · rw [List.cons_append, readStringFrom.eq_def]; rfl
  · rw [List.cons_append, readStringFrom.eq_def]; rfl
  · rw [List.cons_append, readStringFrom.eq_def]; rfl
  · rw [List.cons_append, readStringFrom.eq_def]; rfl
  · rw [List.cons_append, readStringFrom.eq_def]; rfl
  · rw [List.cons_append, readStringFrom.eq_def]; rfl
  · split_ifs with hlow
    · simp only [List.cons_append, List.nil_append]
      have hhigh : isHighSurrogate c.toNat = false := by simp [isHighSurrogate]; omega
      have hlow' : isLowSurrogate c.toNat = false := by simp [isLowSurrogate]; omega
      rw [readStringFrom]
      simp only [hexQuad?_hexDigit _ hlow, hhigh, hlow', Bool.false_eq_true, if_false,
        Char.ofNat_toNat]
    · rw [List.cons_append, List.nil_append, readStringFrom.eq_def]
      split <;> simp_all [isUnescaped]

theorem readString_quoted (s : String) (rest : List Char) :
    readString (s.toList.flatMap escaped ++ '"' :: rest) = .ok (s, rest) := by
  have hread : ∀ cs read : List Char, readStringFrom read (cs.flatMap escaped ++ '"' :: rest) =
      .ok (String.ofList (read.reverse ++ cs), rest) := by
    intro cs
    induction cs with
    | nil =>
      intro read
      rw [List.flatMap_nil, List.nil_append, readStringFrom, List.append_nil]
    | cons c cs ih =>
      intro read
      rw [List.flatMap_cons, List.append_assoc, readStringFrom_escaped, ih, List.reverse_cons,
        List.append_assoc, List.singleton_append]
  rw [readString, hread, List.reverse_nil, List.nil_append, String.ofList_toList]

/-! ### Trees -/

/-- A tree that a document can hold: its integers fit 64 bits, its doubles are finite and read to
the nearest, no table has a key twice, and it is not nested deeper than the given depth. -/
inductive Writable (float? : Numeral → Option Binary64) : ℕ → Data → Prop
  | null {depth : ℕ} : Writable float? depth .null
  | bool {depth : ℕ} (b : Bool) : Writable float? depth (.bool b)
  | int {depth : ℕ} {n : ℤ} (hlow : -bound63 ≤ n) (hhigh : n < bound64) :
      Writable float? depth (.int n)
  | float {depth : ℕ} {x : Binary64} (hx : x.isFinite = true) (hread : ReadsNearest float? x) :
      Writable float? depth (.float x)
  | text {depth : ℕ} (s : String) : Writable float? depth (.text s)
  | list {depth : ℕ} {items : List Data} (h : ∀ d ∈ items, Writable float? depth d) :
      Writable float? (depth + 1) (.list items)
  | table {depth : ℕ} {entries : List (String × Data)} (hkeys : (entries.map Prod.fst).Nodup)
      (h : ∀ e ∈ entries, Writable float? depth e.2) :
      Writable float? (depth + 1) (.table entries)

/-- The parts are set apart by blanks. -/
structure Style.Blank (style : Style) : Prop where
  newline : ∀ depth, ∀ c ∈ style.newline depth, isBlank c = true
  colon : ∃ blanks, style.colon = ':' :: blanks ∧ ∀ c ∈ blanks, isBlank c = true

theorem Style.blank_pretty : Style.pretty.Blank := by
  refine ⟨fun depth c hc => ?_, [' '], rfl, List.forall_mem_singleton.2 rfl⟩
  rcases List.mem_cons.1 hc with rfl | hmem
  · decide
  · rw [List.eq_of_mem_replicate hmem]
    decide

variable {rest' : List Char} {float? : Numeral → Option Binary64} {style : Style} {d : Data}
  {depth level fuel : ℕ} {first : Bool} {key : String} {text tail : List Char}
  {entries : List (String × Data)} {items : List Data}

theorem readValue_blanks (h : ∀ c ∈ blanks, isBlank c = true) :
    readValue float? depth fuel (blanks ++ cs) = readValue float? depth fuel cs := by
  cases fuel with
  | zero => rfl
  | succ fuel => rw [readValue, readValue, skipBlanks_append h]

theorem isBlank_of_digit (hc : c = '-' ∨ isDecimalDigit c = true) : isBlank c = false := by
  rw [isBlank, decide_eq_false_iff_not]
  rintro (rfl | rfl | rfl | rfl) <;> exact absurd hc (by decide)

/-- A value that begins with a sign or a digit is a number. -/
theorem readValue_number (hc : c = '-' ∨ isDecimalDigit c = true) :
    readValue float? depth (fuel + 1) (c :: cs) = readNumber float? (c :: cs) := by
  rw [readValue, skipBlanks_cons (isBlank_of_digit hc)]
  split
  case h_7 =>
    rename_i heq
    cases heq
    exact if_pos hc
  case h_8 => rename_i heq; cases heq
  all_goals
    rename_i heq
    cases heq
    exact absurd hc (by decide)

/-- The tree is read as it is written, wherever it stands. -/
def ReadsBack (float? : Numeral → Option Binary64) (style : Style) (depth : ℕ) (d : Data) : Prop :=
  ∀ level fuel rest, EndsNumeral rest → (write style level d).length ≤ fuel →
    readValue float? depth fuel (write style level d ++ rest) = .ok (d, rest)

/-- One entry of a table is read, and then the end of the table or the entries after a comma. -/
theorem readEntries_entry (hstyle : style.Blank) (hblanks : ∀ c ∈ blanks, isBlank c = true)
    (hvalue : readValue float? depth fuel (text ++ rest) = .ok (d, rest))
    (hnext : skipBlanks rest = '}' :: rest' ∧ entries = [] ∨ ∃ cs, skipBlanks rest = ',' :: cs ∧
      readEntries float? depth fuel false cs = .ok (entries, rest')) :
    readEntries float? depth (fuel + 1) first
        (blanks ++ (quoted key ++ (style.colon ++ (text ++ rest)))) =
      .ok ((key, d) :: entries, rest') := by
  obtain ⟨blanks', hcolon, hblanks'⟩ := hstyle.colon
  rw [readEntries, skipBlanks_append hblanks, quoted, List.cons_append, skipBlanks_cons (by decide),
    List.append_assoc, List.singleton_append, hcolon, List.cons_append]
  simp only [readString_quoted, bind, Except.bind]
  rw [skipBlanks_cons (by decide)]
  simp only [readValue_blanks hblanks', hvalue]
  obtain ⟨hrest, rfl⟩ | ⟨cs, hrest, hmore⟩ := hnext
  · simp only [hrest]
    rfl
  · simp only [hrest, hmore]
    rfl

/-- The entries of a table are read as they are written. -/
theorem readEntries_write (hstyle : style.Blank) (hblanks : ∀ c ∈ blanks, isBlank c = true)
    (h : ∀ e ∈ entries, ReadsBack float? style depth e.2)
    (htail : writeEntries style level entries = ',' :: tail) (hfuel : tail.length < fuel) :
    readEntries float? depth fuel first (tail ++ (blanks ++ '}' :: rest)) =
      .ok (entries, rest) := by
  induction entries generalizing tail fuel first with
  | nil => cases htail
  | cons e es ih =>
    obtain ⟨fuel, rfl⟩ := Nat.exists_eq_succ_of_ne_zero (Nat.ne_zero_of_lt hfuel)
    rw [writeEntries] at htail
    cases htail
    simp only [List.length_append] at hfuel
    have hquoted : 2 ≤ (quoted e.1).length := by simp [quoted]
    have hend : EndsNumeral (writeEntries style level es ++ (blanks ++ '}' :: rest)) := by
      cases es with
      | nil =>
        rw [writeEntries, List.nil_append]
        exact endsNumeral_append hblanks (endsNumeral_cons (.inr (.inr rfl)))
      | cons e' es => exact endsNumeral_cons (.inl rfl)
    simp only [List.append_assoc]
    refine readEntries_entry hstyle (hstyle.newline level)
      (h e List.mem_cons_self level fuel _ hend (by omega)) ?_
    cases es with
    | nil =>
      refine .inl ⟨?_, rfl⟩
      rw [writeEntries, List.nil_append, skipBlanks_append hblanks, skipBlanks_cons (by decide)]
    | cons e' es =>
      refine .inr ⟨_, skipBlanks_cons (by decide), ?_⟩
      refine ih (fun e he => h e (List.mem_cons_of_mem _ he)) rfl ?_
      rw [writeEntries, List.length_cons] at hfuel
      omega

/-- The text of a value begins with a character that no list ends with. -/
theorem exists_write_eq (h : Writable float? depth d) (style : Style) (level : ℕ) :
    ∃ c cs, write style level d = c :: cs ∧ isBlank c = false ∧ c ≠ ']' := by
  have hnumber : ∀ n : Numeral, n.WellFormed →
      ∃ c cs, n.written = c :: cs ∧ isBlank c = false ∧ c ≠ ']' := by
    intro n hn
    obtain ⟨c, cs, htext, hc⟩ := exists_written_eq hn
    refine ⟨c, cs, htext, ?_, ?_⟩
    · exact isBlank_of_digit hc
    · rintro rfl
      exact absurd hc (by decide)
  cases h with
  | null => exact ⟨_, _, rfl, by decide, by decide⟩
  | bool b => cases b <;> exact ⟨_, _, rfl, by decide, by decide⟩
  | int hlow hhigh =>
    obtain ⟨n', hn', htext, -⟩ := exists_integer_eq hlow hhigh
    rw [write, htext]
    exact hnumber n' hn'
  | float hx hread =>
    obtain ⟨n', hn', htext, -⟩ := exists_float_eq hx
    rw [write, htext]
    exact hnumber n' hn'
  | text s => exact ⟨_, _, rfl, by decide, by decide⟩
  | @list _ items h => cases items <;> exact ⟨_, _, rfl, by decide, by decide⟩
  | @table _ entries hkeys h =>
    cases entries with
    | nil => exact ⟨_, _, rfl, by decide, by decide⟩
    | cons e es => exact ⟨_, _, rfl, by decide, by decide⟩

/-- One item of a list is read, and then the end of the list or the items after a comma. -/
theorem readItems_item (hblanks : ∀ c ∈ blanks, isBlank c = true) (hc : isBlank c = false)
    (hbracket : c ≠ ']')
    (hvalue : readValue float? depth fuel (c :: (text ++ rest)) = .ok (d, rest))
    (hnext : skipBlanks rest = ']' :: rest' ∧ items = [] ∨ ∃ cs, skipBlanks rest = ',' :: cs ∧
      readItems float? depth fuel false cs = .ok (items, rest')) :
    readItems float? depth (fuel + 1) first (blanks ++ (c :: (text ++ rest))) =
      .ok (d :: items, rest') := by
  rw [readItems, skipBlanks_append hblanks, skipBlanks_cons hc]
  split
  · rename_i heq
    exact absurd (List.cons.inj heq).1 hbracket
  · simp only [hvalue, bind, Except.bind]
    obtain ⟨hrest, rfl⟩ | ⟨cs, hrest, hmore⟩ := hnext
    · simp only [hrest]
      rfl
    · simp only [hrest, hmore]
      rfl

/-- The items of a list are read as they are written. -/
theorem readItems_write (hstyle : style.Blank) (hblanks : ∀ c ∈ blanks, isBlank c = true)
    (h : ∀ d ∈ items, Writable float? depth d ∧ ReadsBack float? style depth d)
    (htail : writeItems style level items = ',' :: tail) (hfuel : tail.length < fuel) :
    readItems float? depth fuel first (tail ++ (blanks ++ ']' :: rest)) = .ok (items, rest) := by
  induction items generalizing tail fuel first with
  | nil => cases htail
  | cons d ds ih =>
    obtain ⟨fuel, rfl⟩ := Nat.exists_eq_succ_of_ne_zero (Nat.ne_zero_of_lt hfuel)
    obtain ⟨hwritable, hback⟩ := h d List.mem_cons_self
    rw [writeItems] at htail
    cases htail
    simp only [List.length_append] at hfuel
    have hend : EndsNumeral (writeItems style level ds ++ (blanks ++ ']' :: rest)) := by
      cases ds with
      | nil =>
        rw [writeItems, List.nil_append]
        exact endsNumeral_append hblanks (endsNumeral_cons (.inr (.inl rfl)))
      | cons d' ds => exact endsNumeral_cons (.inl rfl)
    obtain ⟨c, cs, htext, hc, hbracket⟩ := exists_write_eq hwritable style level
    have hvalue := hback level fuel _ hend (by omega)
    rw [htext] at hvalue hfuel ⊢
    simp only [List.append_assoc, List.cons_append] at hvalue ⊢
    refine readItems_item (hstyle.newline level) hc hbracket hvalue ?_
    cases ds with
    | nil =>
      refine .inl ⟨?_, rfl⟩
      rw [writeItems, List.nil_append, skipBlanks_append hblanks, skipBlanks_cons (by decide)]
    | cons d' ds =>
      refine .inr ⟨_, skipBlanks_cons (by decide), ?_⟩
      refine ih (fun d hd => h d (List.mem_cons_of_mem _ hd)) rfl ?_
      rw [writeItems, List.length_cons, List.length_cons] at hfuel
      omega

theorem readValue_list (h : readItems float? depth fuel true cs = .ok (items, rest)) :
    readValue float? (depth + 1) (fuel + 1) ('[' :: cs) = .ok (.list items, rest) := by
  rw [readValue, skipBlanks_cons (by decide)]
  simp only [Nat.add_sub_cancel, h, Nat.add_eq_zero_iff, one_ne_zero, and_false, if_false, bind,
    Except.bind]
  rfl

theorem readValue_table (h : readEntries float? depth fuel true cs = .ok (entries, rest)) :
    readValue float? (depth + 1) (fuel + 1) ('{' :: cs) = .ok (.table entries, rest) := by
  rw [readValue, skipBlanks_cons (by decide)]
  simp only [Nat.add_sub_cancel, h, Nat.add_eq_zero_iff, one_ne_zero, and_false, if_false, bind,
    Except.bind]
  rfl

/-- A word, a string or a number is read as it is written. -/
theorem readsBack_scalar (h : Writable float? depth d) (hlist : ∀ items, d ≠ .list items)
    (htable : ∀ entries, d ≠ .table entries) : ReadsBack float? style depth d := by
  intro level fuel rest hrest hfuel
  obtain ⟨c, cs, htext, -⟩ := exists_write_eq h style level
  rw [htext, List.length_cons] at hfuel
  obtain ⟨fuel, rfl⟩ := Nat.exists_eq_succ_of_ne_zero (Nat.ne_zero_of_lt hfuel)
  clear htext
  have hnumber : ∀ n : Numeral, n.WellFormed →
      readValue float? depth (fuel + 1) (n.written ++ rest) =
        readNumber float? (n.written ++ rest) := by
    intro n hn
    obtain ⟨c, cs, htext, hc⟩ := exists_written_eq hn
    rw [htext]
    exact readValue_number hc
  cases h with
  | null => rfl
  | bool b => cases b <;> rfl
  | int hlow hhigh =>
    obtain ⟨n', hn', htext, -⟩ := exists_integer_eq hlow hhigh
    rw [write, htext, hnumber n' hn', ← htext]
    exact readNumber_integer hlow hhigh hrest
  | float hx hread =>
    obtain ⟨n', hn', htext, -⟩ := exists_float_eq hx
    rw [write, htext, hnumber n' hn', ← htext]
    exact readNumber_float hx hread hrest
  | text s =>
    rw [write, quoted, List.cons_append, List.append_assoc, List.singleton_append, readValue,
      skipBlanks_cons (by decide)]
    simp only [readString_quoted, bind, Except.bind]
    rfl
  | list h => exact absurd rfl (hlist _)
  | table hkeys h => exact absurd rfl (htable _)

/-- **A tree is read as it is written.** -/
theorem readsBack (hstyle : style.Blank) (h : Writable float? depth d) :
    ReadsBack float? style depth d := by
  induction h with
  | null => exact readsBack_scalar .null nofun nofun
  | bool b => exact readsBack_scalar (.bool b) nofun nofun
  | int hlow hhigh => exact readsBack_scalar (.int hlow hhigh) nofun nofun
  | float hx hread => exact readsBack_scalar (.float hx hread) nofun nofun
  | text s => exact readsBack_scalar (.text s) nofun nofun
  | @list depth items h ih =>
    intro level fuel rest hrest hfuel
    cases items with
    | nil =>
      obtain ⟨fuel, rfl⟩ := Nat.exists_eq_add_of_le' hfuel
      exact readValue_list rfl
    | cons d ds =>
      rw [write] at hfuel ⊢
      obtain ⟨fuel, rfl⟩ := Nat.exists_eq_succ_of_ne_zero (Nat.ne_zero_of_lt hfuel)
      rw [List.cons_append, List.append_assoc, List.append_assoc, List.singleton_append]
      refine readValue_list (readItems_write hstyle (hstyle.newline level)
        (fun d hd => ⟨h d hd, ih d hd⟩) rfl ?_)
      simp only [List.length_cons, List.length_append] at hfuel ⊢
      omega
  | @table depth entries hkeys h ih =>
    intro level fuel rest hrest hfuel
    cases entries with
    | nil =>
      obtain ⟨fuel, rfl⟩ := Nat.exists_eq_add_of_le' hfuel
      exact readValue_table rfl
    | cons e es =>
      obtain ⟨key, value⟩ := e
      rw [write] at hfuel ⊢
      obtain ⟨fuel, rfl⟩ := Nat.exists_eq_succ_of_ne_zero (Nat.ne_zero_of_lt hfuel)
      rw [List.cons_append, List.append_assoc, List.append_assoc, List.singleton_append]
      refine readValue_table (readEntries_write hstyle (hstyle.newline level) ih rfl ?_)
      simp only [List.length_cons, List.length_append] at hfuel ⊢
      omega

/-! ### Documents -/

theorem readBy_eq_ok {value : Data} {text : List Char}
    (h : readValue float? maxDepth (2 * text.length + 2) text = .ok (value, [])) :
    readBy float? (String.ofList text) = .ok value := by
  rw [readBy, String.toList_ofList]
  simp only [h, bind, Except.bind]
  rfl

/-- **What is written of a tree may stand in another document,** and is read as that tree. -/
theorem readBy_entry (hstyle : style.Blank) (h : Writable float? 126 d) (key : String) :
    readBy float? (String.ofList
      ('{' :: (quoted key ++ (style.colon ++ (write style 0 d ++ ['}']))))) =
        .ok (.table [(key, d)]) := by
  refine readBy_eq_ok (readValue_table ?_)
  have hvalue := readsBack hstyle h 0
    (2 * (quoted key ++ (style.colon ++ (write style 0 d ++ ['}']))).length + 2) ['}']
    (endsNumeral_cons (.inr (.inr rfl))) (by simp only [List.length_append]; omega)
  have hnone : ∀ c ∈ ([] : List Char), isBlank c = true := by simp
  exact readEntries_entry hstyle hnone hvalue (.inl ⟨rfl, rfl⟩)

/-! ### Distinct keys -/

/-- In a tree that can be written every key occurs once. -/
theorem Writable.settled_eq (h : Writable float? depth d) : d.settled = d := by
  induction h with
  | null => rfl
  | bool b => rfl
  | int hlow hhigh => rfl
  | float hx hread => rfl
  | text s => rfl
  | list h ih => rw [Data.settled, settledItems_eq_self ih]
  | table hkeys h ih => rw [Data.settled, settledEntries_eq_self ih, distinct_eq_self hkeys]

end Isolate.Json
