import Isolate.Config.Builtin
import Isolate.Proofs.Config.Draft
import Isolate.Proofs.Config.Validity
import Isolate.Proofs.Number.Exact

/-!
# Loading configurations

What a text says is judged in two places: the name of a source file when the text is converted, and
everything else afterwards. Both together accept what is sound, and nothing else.

* `Profile.Draft.Sound`, `Config.Draft.Sound`: the rules, for the fields as the text has them;
* `exists_draft_eq_iff`: the fields that are sound are those of accepted configurations;
* `ofText_eq_ok`, `ofText_accepts_iff`: which texts have a configuration, and which one;
* `ofText_exampleText`: the built-in configuration is accepted;
* `loading_accepts_sound`: all ways to load a configuration together.
-/

namespace Isolate

/-! ### Rules -/

theorem hasDoubleDot_iff {cs : List Char} : hasDoubleDot cs = true ↔ ['.', '.'] <:+: cs := by
  fun_induction hasDoubleDot cs with
  | case1 cs => exact ⟨fun _ => ⟨[], cs, rfl⟩, fun _ => rfl⟩
  | case2 c cs hhead ih =>
    rw [ih, List.infix_cons_iff, or_iff_right]
    rintro ⟨rest, hrest⟩
    cases hrest
    exact hhead rest rfl rfl
  | case3 => simp

/-- A plain name for a source file. -/
structure IsPlainName (name : String) : Prop where
  nonempty : name ≠ ""
  noSlash : '/' ∉ name.toList
  noDoubleDot : ¬ ['.', '.'] <:+: name.toList
  notInput : name ≠ "input.txt"

theorem isSourceFileName_iff {name : String} :
    isSourceFileName name = true ↔ IsPlainName name := by
  have hempty : name.toList.isEmpty = false ↔ name ≠ "" := by
    rw [← Bool.not_eq_true, List.isEmpty_iff, String.toList_eq_nil_iff]
  have hdots : hasDoubleDot name.toList = false ↔ ¬ ['.', '.'] <:+: name.toList := by
    rw [← Bool.not_eq_true, hasDoubleDot_iff]
  simp only [isSourceFileName, inputFileName, Bool.not_eq_true', Bool.or_eq_false_iff, hempty, hdots,
    beq_eq_false_iff_ne, and_assoc]
  exact ⟨fun ⟨h₁, h₂, h₃, h₄⟩ => ⟨h₁, by simpa using h₂, h₃, h₄⟩,
    fun ⟨h₁, h₂, h₃, h₄⟩ => ⟨h₁, by simpa using h₂, h₃, h₄⟩⟩

/-- The rules for the fields of a profile. -/
structure Profile.Draft.Sound (r : Profile.Draft) : Prop where
  image : r.image ≠ ""
  name : IsPlainName r.name
  compile : r.compile ≠ some []
  run : r.run ≠ []
  time : ∀ x ∈ r.time, x.IsTimeSetting

/-- The rules for the fields of a configuration. -/
structure Config.Draft.Sound (r : Config.Draft) : Prop where
  languages : ∀ entry ∈ r.languages, entry.2.Sound
  fallbackTime : r.fallbackTime.IsTimeSetting
  maxOutput : 0 < r.maxOutput

/-! ### Drafts of accepted configurations -/

theorem Profile.draft_sound_iff {p : Profile} : p.draft.Sound ↔ p.Valid := by
  constructor
  · intro h
    exact ⟨h.image, h.run, h.compile, fun x hx => isTimeSetting_iff.2 (h.time x hx)⟩
  · intro h
    exact ⟨h.image, isSourceFileName_iff.1 p.sourceFile.plain, h.compile, h.run,
      fun x hx => isTimeSetting_iff.1 (h.time x hx)⟩

/-- The fields of a profile with a plain name are those of a profile. -/
theorem Profile.Draft.Sound.exists_draft {r : Profile.Draft} (h : r.Sound) :
    ∃ p : Profile, p.draft = r :=
  ⟨⟨r.image, ⟨r.name, isSourceFileName_iff.2 h.name⟩, r.compile, r.run, r.memory, r.time⟩, rfl⟩

namespace Config

variable {c : Config} {r : Draft} {format : Format} {text : String}
  {entries : List (String × Data)} {path : String} {node : Node}

/-- The fields of a configuration are sound if and only if it has no defect. -/
theorem draft_sound_iff : c.draft.Sound ↔ c.firstDefect = none := by
  rw [firstDefect_eq_none]
  constructor
  · intro h
    refine ⟨fun entry hentry => ?_, isTimeSetting_iff.2 h.fallbackTime,
      UInt64.pos_iff_ne_zero.1 h.maxOutput⟩
    exact Profile.draft_sound_iff.1
      (h.languages (entry.1, entry.2.draft) (List.mem_map_of_mem hentry))
  · intro h
    refine ⟨fun entry hentry => ?_, isTimeSetting_iff.1 h.fallbackTime,
      UInt64.pos_iff_ne_zero.2 h.maxOutput⟩
    obtain ⟨known, hknown, rfl⟩ := List.mem_map.1 hentry
    exact Profile.draft_sound_iff.2 (h.languages known hknown)

/-- **Sound fields are those of the configurations without a defect.** -/
theorem exists_draft_eq_iff : (∃ c : Config, c.draft = r ∧ c.firstDefect = none) ↔ r.Sound := by
  constructor
  · rintro ⟨c, rfl, h⟩
    exact draft_sound_iff.2 h
  · intro h
    have hlanguages : ∀ entry ∈ r.languages,
        entry ∈ Set.range fun e : String × Profile => (e.1, e.2.draft) := by
      intro entry hentry
      obtain ⟨p, hp⟩ := (h.languages entry hentry).exists_draft
      exact ⟨(entry.1, p), Prod.ext rfl hp⟩
    obtain ⟨languages, hlanguages⟩ := (Set.range_list_map _).ge hlanguages
    have hdraft : (⟨r.host, r.pool, r.maxOutput, r.fallbackTime, languages⟩ : Config).draft = r := by
      rw [draft, hlanguages]
    exact ⟨_, hdraft, draft_sound_iff.1 (hdraft.symm ▸ h)⟩

/-! ### Texts -/

theorem ofEntries_eq_ok {entries? : Option (List (String × Data))} :
    ofEntries entries? = .ok c ↔ ∃ entries, entries? = some entries ∧
      ofData (KeyPath.expand entries) = .ok c ∧ c.firstDefect = none := by
  unfold ofEntries
  cases entries? with
  | none => simp
  | some entries =>
    simp only [Option.some.injEq, exists_eq_left']
    cases ofData (KeyPath.expand entries) with
    | error e => simp
    | ok c' =>
      simp only [Except.ok.injEq]
      split
      · rename_i defect hdefect
        exact ⟨nofun, fun ⟨h, hnone⟩ => by rw [h, hnone] at hdefect; cases hdefect⟩
      · rename_i hnone
        exact ⟨fun h => by cases h; exact ⟨rfl, hnone⟩, fun h => by rw [h.1]⟩

theorem ofText_eq_ok : ofText format text = .ok c ↔ ∃ entries,
    format.entries? text = some entries ∧ ofData (KeyPath.expand entries) = .ok c ∧
      c.firstDefect = none := ofEntries_eq_ok

/-- **A text is accepted if and only if its fields are sound,** and its configuration has these
fields. -/
theorem ofText_accepts_iff (hentries : format.entries? text = some entries)
    (hfields : Fields (KeyPath.expand entries) r) :
    ((∃ c, ofText format text = .ok c) ↔ r.Sound) ∧
      ∀ c, ofText format text = .ok c → c.draft = r := by
  have hdraft : ∀ c, ofText format text = .ok c → c.draft = r := by
    intro c h
    obtain ⟨entries', hentries', hdata, -⟩ := ofText_eq_ok.1 h
    cases hentries.symm.trans hentries'
    exact (ofData_eq_ok.1 hdata).unique hfields
  refine ⟨?_, hdraft⟩
  rw [← exists_draft_eq_iff]
  constructor
  · rintro ⟨c, h⟩
    obtain ⟨-, -, -, hnone⟩ := ofText_eq_ok.1 h
    exact ⟨c, hdraft c h, hnone⟩
  · rintro ⟨c, rfl, hnone⟩
    exact ⟨c, ofText_eq_ok.2 ⟨entries, hentries, ofData_eq_ok.2 hfields, hnone⟩⟩

/-- What is loaded from a text is sound. -/
theorem sound_of_ofText (h : ofText format text = .ok c) : c.draft.Sound := by
  obtain ⟨-, -, -, hnone⟩ := ofText_eq_ok.1 h
  exact draft_sound_iff.2 hnone

/-- What is loaded from a file is sound. -/
theorem sound_of_ofFile (h : ofFile path node = .ok c) :
    c.draft.Sound := by
  cases node with
  | nothing => cases h
  | directory => cases h
  | refused => cases h
  | file content =>
    unfold ofFile at h
    cases hformat : Format.ofPath? path with
    | none =>
      rw [hformat] at h
      cases h
    | some format =>
      rw [hformat] at h
      exact sound_of_ofText h

/-! ### The built-in configuration -/

/-- The characters, which have no byte order mark at their front, are a document whose configuration
passes the test. -/
def passes (test : Config → Bool) (cs : List Char) : Bool :=
  cs.head? != some '\uFEFF' &&
    ((Toml.readDocument (cs.length + 1) ⟨[], []⟩ cs).bind fun s => s.root.toData.entries?).any
      fun entries => (ofData (KeyPath.expand entries)).toOption.any test

/-- A document that passes is the text of its characters. -/
theorem exists_of_passes {test : Config → Bool} {cs : List Char} (h : passes test cs = true) :
    ∃ entries c, Format.entries? .toml (String.ofList cs) = some entries ∧
      ofData (KeyPath.expand entries) = .ok c ∧ test c = true := by
  obtain ⟨hmark, hdocument⟩ := Bool.and_eq_true_iff.1 h
  obtain ⟨entries, hentries, hdata⟩ := (Option.any_eq_true _ _).1 hdocument
  obtain ⟨s, hs, hs'⟩ := Option.bind_eq_some_iff.1 hentries
  cases hc : ofData (KeyPath.expand entries) with
  | error e =>
    rw [hc] at hdata
    cases hdata
  | ok c =>
  rw [hc] at hdata
  refine ⟨entries, c, ?_, hc, hdata⟩
  have hread : Toml.read (String.ofList cs) = some s.root.toData := by
    unfold Toml.read
    rw [String.toList_ofList]
    split
    · cases hmark
    · dsimp only
      rw [hs]
      rfl
  rw [Format.entries?, hread, Option.bind_some, hs']

theorem exists_fields_of_passes {cs : List Char} (h : passes (fun c' => c' = c) cs = true) :
    ∃ entries, Format.entries? .toml (String.ofList cs) = some entries ∧
      Fields (KeyPath.expand entries) c.draft := by
  obtain ⟨entries, c', hentries, hdata, hc⟩ := exists_of_passes h
  rw [of_decide_eq_true hc] at hdata
  exact ⟨entries, hentries, ofData_eq_ok.1 hdata⟩

set_option maxRecDepth 100000 in
/-- The example text, read by the kernel from its characters. -/
theorem exampleText_passes : ∃ cs, exampleText = String.ofList cs ∧
    passes (fun c => c.firstDefect.isNone) cs = true :=
  ⟨_, rfl, by decide +kernel⟩

/-- **The example text is accepted,** and its configuration is the built-in one. -/
theorem ofText_exampleText : ofText .toml exampleText = .ok builtin := by
  obtain ⟨cs, htext, hpasses⟩ := exampleText_passes
  obtain ⟨entries, c, hentries, hdata, hnone⟩ := exists_of_passes hpasses
  have hok : ofText .toml exampleText = .ok c :=
    htext ▸ ofText_eq_ok.2 ⟨entries, hentries, hdata, Option.isNone_iff_eq_none.1 hnone⟩
  rw [builtin, hok, Except.toOption, Option.getD_some]

/-! ### All ways to load -/

theorem loadOrBuiltin_none : loadOrBuiltin none = builtin := by rw [loadOrBuiltin]

theorem loadOrBuiltin_of_ok (h : ofFile path node = .ok c) :
    loadOrBuiltin (some (path, node)) = c := by
  rw [loadOrBuiltin, h, Except.toOption, Option.getD_some]

theorem loadOrBuiltin_of_error {e : LoadError} (h : ofFile path node = .error e) :
    loadOrBuiltin (some (path, node)) = builtin := by
  rw [loadOrBuiltin, h, Except.toOption, Option.getD_none]

theorem sound_loadOrBuiltin (source : Option (String × Node)) :
    (loadOrBuiltin source).draft.Sound := by
  have hbuiltin : builtin.draft.Sound := sound_of_ofText ofText_exampleText
  cases source with
  | none => exact loadOrBuiltin_none ▸ hbuiltin
  | some source =>
    obtain ⟨path, node⟩ := source
    cases h : ofFile path node with
    | ok c => exact loadOrBuiltin_of_ok h ▸ sound_of_ofFile h
    | error e => exact loadOrBuiltin_of_error h ▸ hbuiltin

/-- **Loading accepts exactly the sound configurations.** A text whose fields are of the right types
is accepted if and only if they are sound, in whatever order the languages are converted and looked
at. So all that is loaded is sound, and a file that cannot be loaded is replaced by the built-in
configuration. -/
theorem loading_accepts_sound :
    (∀ format text entries r, Format.entries? format text = some entries →
      Fields (KeyPath.expand entries) r →
        ((∃ c, ofText format text = .ok c) ↔ r.Sound) ∧
          ∀ c, ofText format text = .ok c → c.draft = r) ∧
    (∀ place es es' qs, Conversion.profiles place es = .ok qs → es.Perm es' →
      ∃ qs', qs.Perm qs' ∧ Conversion.profiles place es' = .ok qs') ∧
    (∀ (c : Config) languages, c.languages.Perm languages →
      (({ c with languages } : Config).firstDefect = none ↔ c.firstDefect = none)) ∧
    (∀ format text c, ofText format text = .ok c → c.draft.Sound) ∧
    (∀ path node c, ofFile path node = .ok c →
      c.draft.Sound ∧ loadOrBuiltin (some (path, node)) = c) ∧
    (∀ path node e, ofFile path node = .error e →
      loadOrBuiltin (some (path, node)) = builtin) ∧
    loadOrBuiltin none = builtin ∧ ∀ source, (loadOrBuiltin source).draft.Sound := by
  refine ⟨fun _ _ _ _ => ofText_accepts_iff, fun _ _ _ _ => Conversion.profiles_perm,
    fun _ _ => firstDefect_perm, fun _ _ _ => sound_of_ofText, fun _ _ _ h => ?_, fun _ _ _ h => ?_,
    loadOrBuiltin_none, sound_loadOrBuiltin⟩
  · exact ⟨sound_of_ofFile h, loadOrBuiltin_of_ok h⟩
  · exact loadOrBuiltin_of_error h

/-- A configuration with one language. -/
def oneLanguage : Config where
  languages := [("sh", ⟨"alpine", ⟨"plain.sh", by decide⟩, none, ["sh"], none, none⟩)]

/-- Its text. -/
def textOfOne : String :=
  "[languages.sh]\nimage = 'alpine'\nsource_file = 'plain.sh'\nrun_cmd = ['sh']\n"

/-- A configuration that keeps no output, for which it is not accepted. -/
def silent : Config := { maxOutput := 0 }

/-- Its text. -/
def textOfSilent : String := "max_output = 0\n"

theorem loading_accepts_sound_textOfOne : ∃ entries content c,
    Format.entries? .toml textOfOne = some entries ∧
    Fields (KeyPath.expand entries) oneLanguage.draft ∧ oneLanguage.draft.Sound ∧
    ofText .toml textOfOne = .ok c ∧ c.draft = oneLanguage.draft ∧
    ofFile "one.toml" (.file content) = .ok c ∧
    loadOrBuiltin (some ("one.toml", .file content)) = c ∧
    ofFile "one.toml" .nothing = .error .unreadable ∧
    loadOrBuiltin (some ("one.toml", .nothing)) = builtin ∧
    ∃ entries', Format.entries? .toml textOfSilent = some entries' ∧
      Fields (KeyPath.expand entries') silent.draft ∧ ¬ ∃ c, ofText .toml textOfSilent = .ok c := by
  have hone : ∃ cs, textOfOne = String.ofList cs ∧ passes (fun c => c = oneLanguage) cs = true ∧
      textOf (cs.flatMap String.utf8EncodeChar) = String.ofList cs :=
    ⟨_, rfl, by decide +kernel, by decide +kernel⟩
  have hsilent : ∃ cs, textOfSilent = String.ofList cs ∧ passes (fun c => c = silent) cs = true :=
    ⟨_, rfl, by decide +kernel⟩
  have hformat : Format.ofPath? "one.toml" = some .toml := by decide +kernel
  have hsound : oneLanguage.draft.Sound := draft_sound_iff.2 (by decide)
  have hunsound : ¬ silent.draft.Sound := mt draft_sound_iff.1 (by decide)
  obtain ⟨cs, htext, hpasses, hcontent⟩ := hone
  obtain ⟨entries, hentries, hfields⟩ := exists_fields_of_passes hpasses
  rw [← htext] at hentries hcontent
  obtain ⟨cs', htext', hpasses'⟩ := hsilent
  obtain ⟨entries', hentries', hfields'⟩ := exists_fields_of_passes hpasses'
  rw [← htext'] at hentries'
  obtain ⟨accepts, -, -, -, loaded, replaced, -, -⟩ := loading_accepts_sound
  obtain ⟨hiff, hdraft⟩ := accepts _ _ _ _ hentries hfields
  obtain ⟨c, hok⟩ := hiff.2 hsound
  have hfile : ofFile "one.toml" (.file (cs.flatMap String.utf8EncodeChar)) = .ok c := by
    simp only [ofFile, hformat, hcontent, hok]
  exact ⟨entries, _, c, hentries, hfields, hsound, hok, hdraft c hok, hfile, (loaded _ _ _ hfile).2,
    rfl, replaced _ _ _ rfl, entries', hentries', hfields',
    mt (accepts _ _ _ _ hentries' hfields').1.1 hunsound⟩

end Config

end Isolate
