import Isolate.Proofs.Run.Execution
import Isolate.Proofs.Text.Decoding

/-!
# What is captured of the output

However the output of a command is cut into pieces, and however the pieces of the two streams take
turns, what is kept of a stream are its first bytes, up to the cap.

* `Chunk.output`, `Chunk.errors`: what a piece brings to each stream;
* `Capture.Holds`: what a capture has to be for the bytes that came so far;
* `Capture.ofStream`, with `push_ofStream`: the capture of a stream, one piece more;
* `Execution.reads`, `reads_collecting`: what is captured while output comes in;
* `output_captured`: each stream is captured as if it had come in one piece;
* `text_of_stream`: the text that is shown of a stream that was cut off.
-/

namespace Isolate

namespace Chunk

/-- What a piece of output brings to the standard output. -/
def output : Chunk → Bytes
  | .stdout bytes => bytes
  | .stderr _ => []

/-- What a piece of output brings to the error output. -/
def errors : Chunk → Bytes
  | .stdout _ => []
  | .stderr bytes => bytes

end Chunk

namespace Capture

variable {cap : ℕ} {bytes : Bytes}

/-- The first bytes of a stream are kept, up to the cap, and it is known whether there were more. -/
structure Holds (cap : ℕ) (bytes : Bytes) (c : Capture) : Prop where
  kept : c.kept = bytes.take cap
  length : c.kept.length = min cap bytes.length
  atMost : c.kept.length ≤ cap
  truncated : c.truncated = true ↔ cap < bytes.length
  text : c.text = Utf8.decodeLossy (bytes.take cap) ++ if cap < bytes.length then marker else ""

/-- What is captured of a stream. -/
def ofStream (cap : ℕ) (bytes : Bytes) : Capture :=
  ⟨cap, bytes.take cap, decide (cap < bytes.length)⟩

theorem ofStream_nil (cap : ℕ) : ofStream cap [] = empty cap := by
  simp [ofStream, empty]

/-- **One more piece of a stream.** There is room for what the cap leaves of the piece, and it is cut
off exactly if the stream grows beyond the cap with it. -/
theorem push_ofStream (cap : ℕ) (bytes chunk : Bytes) :
    (ofStream cap bytes).push chunk = ofStream cap (bytes ++ chunk) := by
  have hroom : (ofStream cap bytes).room = cap - min cap bytes.length := by
    rw [room, ofStream, List.length_take]
  have hkept : bytes.take cap ++ chunk.take (cap - min cap bytes.length) =
      (bytes ++ chunk).take cap := by
    rw [List.take_append]
    congr 2
    omega
  have htruncated : (decide (cap < bytes.length) ||
      decide (cap - min cap bytes.length < chunk.length)) =
        decide (cap < (bytes ++ chunk).length) := by
    rw [← Bool.decide_or, List.length_append]
    congr 1
    exact propext (by omega)
  rw [push, hroom]
  exact congrArg₂ (Capture.mk cap) hkept htruncated

theorem foldl_push (cap : ℕ) (chunks : List Bytes) :
    chunks.foldl push (empty cap) = ofStream cap chunks.flatten := by
  have hmore : ∀ bytes, chunks.foldl push (ofStream cap bytes) =
      ofStream cap (bytes ++ chunks.flatten) := by
    induction chunks with
    | nil => simp
    | cons chunk chunks ih =>
      intro bytes
      rw [List.foldl_cons, push_ofStream, ih, List.flatten_cons, List.append_assoc]
  rw [← ofStream_nil, hmore, List.nil_append]

theorem holds_ofStream (cap : ℕ) (bytes : Bytes) : (ofStream cap bytes).Holds cap bytes where
  kept := rfl
  length := List.length_take
  atMost := List.length_take_le cap bytes
  truncated := decide_eq_true_iff
  text := by simp [text, ofStream]

end Capture

/-! ### Executions -/

namespace Execution

variable {x : Execution} {exec : ExecId} {frames : List (Instant × Chunk)}

/-- What the pieces bring to the standard output. -/
def outputOf (frames : List (Instant × Chunk)) : Bytes := frames.flatMap (·.2.output)

/-- What the pieces bring to the error output. -/
def errorsOf (frames : List (Instant × Chunk)) : Bytes := frames.flatMap (·.2.errors)

/-- The execution while its output comes in. -/
def collecting (x : Execution) (exec : ExecId) (stdout stderr : Capture) : Execution :=
  { x with point := .collecting exec stdout stderr }

/-- The execution after it was told of pieces of output, each at its moment. -/
def reads (x : Execution) : List (Instant × Chunk) → Option Execution
  | [] => some x
  | f :: fs =>
    match x.step f.1 false (.reply (.output (.ok f.2))) with
    | some (.going x) => x.reads fs
    | _ => none

/-- The result of an execution that is told of pieces of output, of the end of the output and of the
exit code. -/
def finishes (x : Execution) (frames : List (Instant × Chunk)) (ended answered : Instant)
    (code : Int) : Option Result :=
  match (x.reads frames).bind (·.step ended false (.reply .ended)) with
  | some (.going x) =>
    match x.step answered false (.reply (.code (.ok (some code)))) with
    | some (.finished result) => some result
    | _ => none
  | _ => none

/-- A piece of one stream leaves the capture of the other as it is. -/
theorem gather_ofStream (cap : ℕ) (out err : Bytes) (chunk : Chunk) :
    gather (.ofStream cap out) (.ofStream cap err) chunk =
      (.ofStream cap (out ++ chunk.output), .ofStream cap (err ++ chunk.errors)) := by
  cases chunk with
  | stdout bytes => simp [gather, Capture.push_ofStream, Chunk.output, Chunk.errors]
  | stderr bytes => simp [gather, Capture.push_ofStream, Chunk.output, Chunk.errors]

/-- **What is captured while output comes in.** -/
theorem reads_collecting (cap : ℕ) (out err : Bytes) :
    (x.collecting exec (.ofStream cap out) (.ofStream cap err)).reads frames =
      some (x.collecting exec (.ofStream cap (out ++ outputOf frames))
        (.ofStream cap (err ++ errorsOf frames))) := by
  induction frames generalizing out err with
  | nil => simp [reads, outputOf, errorsOf]
  | cons f fs ih =>
    have hstep : (x.collecting exec (.ofStream cap out) (.ofStream cap err)).step f.1 false
        (.reply (.output (.ok f.2))) =
          some (.going (x.collecting exec (.ofStream cap (out ++ f.2.output))
            (.ofStream cap (err ++ f.2.errors)))) := by
      simp [step, collecting, gather_ofStream]
    rw [reads, hstep]
    show reads _ fs = _
    rw [ih, List.append_assoc, List.append_assoc]
    rfl

/-- The execution at the moment at which its command was opened. -/
def opened (x : Execution) (exec : ExecId) : Execution :=
  x.collecting exec (.empty x.cap) (.empty x.cap)

theorem reads_opened (x : Execution) (exec : ExecId) (frames : List (Instant × Chunk)) :
    (x.opened exec).reads frames = some (x.collecting exec (.ofStream x.cap (outputOf frames))
      (.ofStream x.cap (errorsOf frames))) := by
  have h : (x.collecting exec (.ofStream x.cap []) (.ofStream x.cap [])).reads frames = _ :=
    reads_collecting x.cap [] []
  rwa [Capture.ofStream_nil, List.nil_append, List.nil_append] at h

theorem outputOf_mono {read : List (Instant × Chunk)} (h : read <+: frames) :
    outputOf read <+: outputOf frames := by
  obtain ⟨rest, rfl⟩ := h
  exact ⟨outputOf rest, List.flatMap_append.symm⟩

theorem errorsOf_mono {read : List (Instant × Chunk)} (h : read <+: frames) :
    errorsOf read <+: errorsOf frames := by
  obtain ⟨rest, rfl⟩ := h
  exact ⟨errorsOf rest, List.flatMap_append.symm⟩

/-- **Output is captured stream by stream.** Whatever the cap and however the pieces of output are
cut and mixed: at every moment each capture holds the first bytes that came for its stream, up to
the cap, and a stream that has outgrown the cap remains marked as cut off. The outcome shows the
captures of all pieces, so it shows of a stream what depends on the bytes of that stream alone. -/
theorem output_captured (x : Execution) (exec : ExecId) (frames : List (Instant × Chunk)) :
    (∀ read, read <+: frames → ∃ stdout stderr stdout' stderr' : Capture,
      (x.opened exec).reads read = some (x.collecting exec stdout stderr) ∧
        stdout.Holds x.cap (outputOf read) ∧ stderr.Holds x.cap (errorsOf read) ∧
        (x.opened exec).reads frames = some (x.collecting exec stdout' stderr') ∧
        stdout'.Holds x.cap (outputOf frames) ∧ stderr'.Holds x.cap (errorsOf frames) ∧
        (stdout.truncated = true → stdout'.truncated = true) ∧
        (stderr.truncated = true → stderr'.truncated = true)) ∧
    (∀ (ended answered : Instant) (code : Int), isInt32 code = true →
      ∃ (stdout stderr : Capture) (timeUsed : Duration),
        stdout.Holds x.cap (outputOf frames) ∧ stderr.Holds x.cap (errorsOf frames) ∧
        (x.opened exec).finishes frames ended answered code =
          some (.ok ⟨stdout.text, stderr.text, code, timeUsed, 0, false⟩)) ∧
    ∀ frames', outputOf frames' = outputOf frames → errorsOf frames' = errorsOf frames →
      (x.opened exec).reads frames' = (x.opened exec).reads frames ∧
      (x.opened exec).finishes frames' = (x.opened exec).finishes frames := by
  refine ⟨fun read hread => ?_, fun ended answered code hcode => ?_, fun frames' hout herr => ?_⟩
  · refine ⟨_, _, _, _, reads_opened x exec read, Capture.holds_ofStream _ _,
      Capture.holds_ofStream _ _, reads_opened x exec frames, Capture.holds_ofStream _ _,
      Capture.holds_ofStream _ _, fun h => ?_, fun h => ?_⟩
    · have hlength := (outputOf_mono hread).length_le
      exact decide_eq_true ((of_decide_eq_true h).trans_le hlength)
    · have hlength := (errorsOf_mono hread).length_le
      exact decide_eq_true ((of_decide_eq_true h).trans_le hlength)
  · refine ⟨_, _, x.started.since ended, Capture.holds_ofStream _ _, Capture.holds_ofStream _ _, ?_⟩
    simp [finishes, reads_opened, step, collecting, inspected, hcode, Ending.outcome]
  · have hreads : (x.opened exec).reads frames' = (x.opened exec).reads frames := by
      rw [reads_opened, reads_opened, hout, herr]
    refine ⟨hreads, ?_⟩
    unfold finishes
    rw [hreads]

/-- An execution that keeps four bytes of each stream. -/
def narrow : Execution where
  container := ⟨"a"⟩
  argv := ["sh"]
  cap := 4
  started := 0
  deadline := none
  point := .opening

/-- Six bytes of output in two pieces, and one of an error between them. -/
def interleaved : List (Instant × Chunk) :=
  [(1, .stdout [104, 101, 108]), (2, .stderr [33]), (3, .stdout [108, 111, 10])]

/-- The same bytes, those of the error first and the output byte by byte. -/
def separated : List (Instant × Chunk) :=
  [(1, .stderr [33]), (4, .stdout [104]), (5, .stdout [101, 108, 108]), (5, .stdout []),
    (5, .stdout [111, 10])]

theorem output_captured_interleaved :
    interleaved.take 2 <+: interleaved ∧ outputOf separated = outputOf interleaved ∧
    errorsOf separated = errorsOf interleaved ∧
    (narrow.opened ⟨"x"⟩).finishes separated = (narrow.opened ⟨"x"⟩).finishes interleaved ∧
    (∃ stdout stderr : Capture,
      (narrow.opened ⟨"x"⟩).reads (interleaved.take 2) =
        some (narrow.collecting ⟨"x"⟩ stdout stderr) ∧
      stdout.kept = [104, 101, 108] ∧ stdout.truncated ≠ true) ∧
    ∃ (stdout stderr : Capture) (timeUsed : Duration),
      stdout.kept = [104, 101, 108, 108] ∧ stdout.truncated = true ∧ stderr.truncated ≠ true ∧
      (narrow.opened ⟨"x"⟩).finishes interleaved 7 8 0 =
        some (.ok ⟨stdout.text, stderr.text, 0, timeUsed, 0, false⟩) := by
  have hread : interleaved.take 2 <+: interleaved := ⟨interleaved.drop 2, rfl⟩
  obtain ⟨between, result, same⟩ := output_captured narrow ⟨"x"⟩ interleaved
  obtain ⟨early, early', _, _, hearly, holds, _⟩ := between _ hread
  obtain ⟨stdout, stderr, timeUsed, hout, herr, hresult⟩ := result 7 8 0 (by decide)
  refine ⟨hread, rfl, rfl, (same separated rfl rfl).2, ⟨early, early', hearly, holds.kept, ?_⟩,
    stdout, stderr, timeUsed, hout.kept, hout.truncated.2 (by decide), ?_, hresult⟩
  · exact fun h => absurd (holds.truncated.1 h) (by decide)
  · exact fun h => absurd (herr.truncated.1 h) (by decide)

end Execution

/-! ### Texts that are cut off -/

namespace Utf8

theorem encode_append (s t : String) : encode (s ++ t) = encode s ++ encode t := by
  rw [encode, String.toList_append, List.flatMap_append]
  rfl

/-- The text is put together from a beginning of so many bytes and a rest. -/
def SplitsAt (s : String) (n : ℕ) : Prop :=
  ∃ first rest, s = first ++ rest ∧ (encode first).length = n

theorem encode_singleton (c : Char) : encode (String.singleton c) = String.utf8EncodeChar c := by
  simp [encode]

/-- **Where a cut falls.** What fits of a text that is longer than the room for it are whole
characters, and then some bytes of the next one, which may be none. -/
theorem exists_cut {s : String} {room : ℕ} (long : room < (encode s).length) :
    ∃ (first : String) (c : Char) (rest : String) (k : ℕ),
      s = first ++ (String.singleton c ++ rest) ∧ k < (String.utf8EncodeChar c).length ∧
      room = (encode first).length + k := by
  obtain ⟨cs, rfl⟩ : ∃ cs, s = String.ofList cs := ⟨s.toList, String.ofList_toList.symm⟩
  induction cs generalizing room with
  | nil => simp [encode] at long
  | cons c cs ih =>
    have hs : String.ofList (c :: cs) = String.singleton c ++ String.ofList cs := by
      rw [← String.toList_inj]
      simp
    rw [hs, encode_append, encode_singleton, List.length_append] at long
    by_cases hroom : room < (String.utf8EncodeChar c).length
    · exact ⟨"", c, String.ofList cs, room, by rw [hs, String.empty_append], hroom,
        by simp [encode]⟩
    · obtain ⟨first, c', rest, k, hcs, hk, hsum⟩ :=
        @ih (room - (String.utf8EncodeChar c).length) (by omega)
      refine ⟨String.singleton c ++ first, c', rest, k, ?_, hk, ?_⟩
      · rw [hs, hcs, String.append_assoc]
      · rw [encode_append, encode_singleton, List.length_append]
        omega

theorem take_encode_cut (first rest : String) (c : Char) {k : ℕ}
    (hk : k < (String.utf8EncodeChar c).length) :
    (encode (first ++ (String.singleton c ++ rest))).take ((encode first).length + k) =
      encode first ++ (String.utf8EncodeChar c).take k := by
  rw [encode_append, encode_append, encode_singleton, List.take_length_add_append,
    List.take_append_of_le_length hk.le]

/-- No beginning of a text ends inside a character. -/
theorem SplitsAt.le {first rest : String} {c : Char} {n k : ℕ}
    (h : SplitsAt (first ++ (String.singleton c ++ rest)) n)
    (hk : k < (String.utf8EncodeChar c).length) (hn : n ≤ (encode first).length + k) :
    n ≤ (encode first).length := by
  obtain ⟨first', rest', heq, rfl⟩ := h
  have hlist := congrArg String.toList heq
  rw [String.toList_append, String.toList_append, String.toList_append, String.toList_singleton]
    at hlist
  rcases List.append_eq_append_iff.1 hlist with ⟨more, hmore, hrest⟩ | ⟨more, hmore, _⟩
  · -- a beginning that goes beyond the whole characters has the next one in full
    cases more with
    | nil =>
      rw [List.append_nil, String.toList_inj] at hmore
      rw [hmore]
    | cons d more =>
      obtain ⟨rfl, _⟩ := List.cons.inj hrest
      have hlong : (encode first').length = (encode first).length +
          ((String.utf8EncodeChar c).length + (more.flatMap String.utf8EncodeChar).length) := by
        rw [encode, hmore, List.flatMap_append, List.flatMap_cons, List.length_append,
          List.length_append]
        rfl
      omega
  · have hlong : (encode first).length =
        (encode first').length + (more.flatMap String.utf8EncodeChar).length := by
      rw [encode, hmore, List.flatMap_append, List.length_append]
      rfl
    omega

end Utf8

namespace Capture

/-- **The text that is shown of a stream.** A well-formed stream within the cap is shown as it is.
Of a longer one the longest beginning in whole characters that fits into the cap is shown, then one
replacement character if and only if the cap falls inside a character, and then the marker. What is
shown of any bytes takes at most three times the cap, and the marker. -/
theorem text_of_stream (cap : ℕ) (chunks : List Bytes) :
    (∀ s, chunks.flatten = Utf8.encode s → (Utf8.encode s).length ≤ cap →
      (chunks.foldl push (empty cap)).text = s) ∧
    (∀ s, chunks.flatten = Utf8.encode s → cap < (Utf8.encode s).length →
      ∃ first rest cut : String, s = first ++ rest ∧ (Utf8.encode first).length ≤ cap ∧
        (∀ n ≤ cap, Utf8.SplitsAt s n → n ≤ (Utf8.encode first).length) ∧
        (Utf8.SplitsAt s cap ∧ cut = "" ∨ ¬Utf8.SplitsAt s cap ∧ cut = "\uFFFD") ∧
        (chunks.foldl push (empty cap)).text = first ++ cut ++ marker) ∧
    (Utf8.encode (chunks.foldl push (empty cap)).text).length ≤
      3 * cap + (Utf8.encode marker).length := by
  have htext := (holds_ofStream cap chunks.flatten).text
  rw [foldl_push, htext]
  refine ⟨fun s hs hfits => ?_, fun s hs hlong => ?_, ?_⟩
  · rw [hs, List.take_of_length_le hfits, if_neg (by omega), Utf8.decodeLossy_encode,
      String.append_empty]
  · obtain ⟨first, c, rest, k, rfl, hk, rfl⟩ := Utf8.exists_cut hlong
    have hsplits : ∀ n ≤ (Utf8.encode first).length + k,
        Utf8.SplitsAt (first ++ (String.singleton c ++ rest)) n → n ≤ (Utf8.encode first).length :=
      fun n hn h => h.le hk hn
    rw [hs, if_pos hlong, Utf8.take_encode_cut first rest c hk]
    by_cases hzero : k = 0
    · -- the cap falls between two characters
      subst hzero
      refine ⟨first, _, "", rfl, Nat.le_refl _, hsplits, Or.inl ⟨⟨first, _, rfl, rfl⟩, rfl⟩, ?_⟩
      rw [List.take_zero, List.append_nil, Utf8.decodeLossy_encode, String.append_empty]
    · refine ⟨first, _, "\uFFFD", rfl, Nat.le_add_right _ _, hsplits, Or.inr ⟨fun h => ?_, rfl⟩, ?_⟩
      · have hle := hsplits _ (Nat.le_refl _) h
        omega
      · rw [Utf8.decodeLossy_cut first c (Nat.pos_of_ne_zero hzero) hk]
        rfl
  · have hsize := Utf8.length_encode_decodeLossy (chunks.flatten.take cap)
    have htake : (chunks.flatten.take cap).length ≤ cap := List.length_take_le _ _
    have hmarker : (Utf8.encode (if cap < chunks.flatten.length then marker else "")).length ≤
        (Utf8.encode marker).length := by
      split_ifs
      · exact Nat.le_refl _
      · exact Nat.zero_le _
    rw [Utf8.encode_append, List.length_append]
    omega

/-- The bytes of "a😀b" in two pieces, the first of which ends inside the second character. -/
def splitCharacter : List Bytes := [[0x61, 0xF0, 0x9F], [0x98, 0x80, 0x62]]

theorem text_of_stream_splitCharacter :
    splitCharacter.flatten = Utf8.encode "a😀b" ∧ 3 < (Utf8.encode "a😀b").length ∧
    ¬Utf8.SplitsAt "a😀b" 3 ∧
    ∃ first rest : String, "a😀b" = first ++ rest ∧ (Utf8.encode first).length ≤ 3 ∧
      (splitCharacter.foldl push (empty 3)).text = first ++ "\uFFFD" ++ marker := by
  have hbytes : splitCharacter.flatten = Utf8.encode "a😀b" := by decide +kernel
  have hlong : 3 < (Utf8.encode "a😀b").length := by decide +kernel
  have hinside : ¬Utf8.SplitsAt "a😀b" 3 := by
    intro h
    have hparts : Utf8.SplitsAt ("a" ++ (String.singleton '😀' ++ "b")) 3 := by simpa using h
    have hle := hparts.le (k := 2) (by decide +kernel) (by decide +kernel)
    exact absurd hle (by decide +kernel)
  obtain ⟨first, rest, cut, hs, hfits, _, hcut, htext⟩ :=
    (text_of_stream 3 splitCharacter).2.1 "a😀b" hbytes hlong
  obtain rfl := (hcut.resolve_left fun h => hinside h.1).2
  exact ⟨hbytes, hlong, hinside, first, rest, hs, hfits, htext⟩

end Capture

end Isolate
