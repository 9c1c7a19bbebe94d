import Isolate.Config.Conversion
import Isolate.Proofs.Result

/-!
# What a configuration text says

Before a configuration is judged, a text says what its fields are. A draft holds those fields with
the name of a source file as it stands, so that all rules of validity can be asked of it.

* `Profile.Draft`, `Config.Draft`: the fields; `Profile.draft`, `Config.draft`: those of a profile
  and of a configuration;
* `ProfileFields`, `Config.Fields`: the tree has these fields, each of the right type;
* `profile_eq_ok`, `ofData_eq_ok`: the conversion of a tree succeeds precisely with its fields.
-/

namespace Isolate

/-- The fields of a profile, before the name of the source file is judged. -/
structure Profile.Draft where
  image : String
  name : String
  compile : Option (List String)
  run : List String
  memory : Option UInt64
  time : Option Binary64

/-- The fields of a profile. -/
def Profile.draft (p : Profile) : Profile.Draft :=
  ⟨p.image, p.sourceFile.name, p.compile, p.run, p.memory, p.time⟩

/-- The fields of a configuration, before it is judged. -/
structure Config.Draft where
  host : Option String
  pool : PoolSettings
  maxOutput : UInt64
  fallbackTime : Binary64
  languages : List (String × Profile.Draft)

/-- The fields of a configuration. -/
def Config.draft (c : Config) : Config.Draft :=
  ⟨c.host, c.pool, c.maxOutput, c.fallbackTime, c.languages.map fun e => (e.1, e.2.draft)⟩

namespace Conversion

variable {α : Type} {ps : Parts} {place : Place} {d : Data} {name : String} {position : ℕ}

/-! ### Single parts -/

theorem goOn_some (a : α) : ps.goOn place name position (some a) = .ok () := by
  cases ps <;> rfl

theorem require_eq_ok {found : Option α} {a : α} :
    ps.require place name position found = .ok a ↔ found = some a := by
  cases found with
  | none => exact ⟨nofun, nofun⟩
  | some b => exact ⟨fun h => by cases h; rfl, fun h => by cases h; rfl⟩

theorem get_eq_ok_none {convert : Place → Data → Result α} :
    ps.get place name position convert = .ok none ↔ ps.part? place name position = none := by
  unfold Parts.get
  cases ps.part? place name position with
  | none => exact ⟨fun _ => rfl, fun _ => rfl⟩
  | some part =>
    obtain ⟨inner, d⟩ := part
    refine ⟨fun h => ?_, nofun⟩
    obtain ⟨a, _, ha⟩ := map_eq_ok.1 h
    cases ha

theorem get_eq_ok_some {convert : Place → Data → Result α} {a : α} :
    ps.get place name position convert = .ok (some a) ↔
      ∃ inner d, ps.part? place name position = some (inner, d) ∧ convert inner d = .ok a := by
  unfold Parts.get
  cases ps.part? place name position with
  | none => exact ⟨nofun, fun ⟨_, _, h, _⟩ => by cases h⟩
  | some part =>
    obtain ⟨inner, d⟩ := part
    constructor
    · intro h
      obtain ⟨_, hc, ha⟩ := map_eq_ok.1 h
      cases ha
      exact ⟨inner, d, rfl, hc⟩
    · rintro ⟨_, _, h, hc⟩
      cases h
      exact map_eq_ok.2 ⟨a, hc, rfl⟩

/-- A name is accepted for a source file if it may be one. -/
theorem sourceFile_eq_ok {file : SourceFile} :
    sourceFile place d = .ok file ↔ text place d = .ok file.name := by
  rw [sourceFile, bind_eq_ok]
  constructor
  · rintro ⟨name, hname, h⟩
    unfold SourceFile.ofName? at h
    split_ifs at h with hplain
    cases h
    exact hname
  · intro h
    refine ⟨file.name, h, ?_⟩
    rw [SourceFile.ofName?, dif_pos file.plain]
    rfl

/-! ### Profiles -/

/-- The tree has these fields of a profile, each of the right type; what may be left out is none
where it is left out or null. -/
inductive ProfileFields (place : Place) (d : Data) : Profile.Draft → Prop
  | intro {ps : Parts} {image name : String} {compile : Option (Option (List String))}
      {run : List String} {memory : Option (Option UInt64)} {time : Option (Option Binary64)}
      (parts_ok : parts .profile place d = .ok ps)
      (image_ok : ps.get place "image" 0 text = .ok (some image))
      (name_ok : ps.get place "source_file" 1 text = .ok (some name))
      (compile_ok : ps.get place "compile_cmd" 2 (optional texts) = .ok compile)
      (run_ok : ps.get place "run_cmd" 3 texts = .ok (some run))
      (memory_ok : ps.get place "memory_limit" 4 (optional count) = .ok memory)
      (time_ok : ps.get place "time_limit" 5 (optional seconds) = .ok time) :
      ProfileFields place d ⟨image, name, compile.join, run, memory.join, time.join⟩

/-- A tree has at most one set of fields. -/
theorem ProfileFields.unique {r r' : Profile.Draft} (h : ProfileFields place d r)
    (h' : ProfileFields place d r') : r = r' := by
  obtain ⟨hps, himage, hname, hcompile, hrun, hmemory, htime⟩ := h
  obtain ⟨hps', himage', hname', hcompile', hrun', hmemory', htime'⟩ := h'
  cases hps.symm.trans hps'
  cases himage.symm.trans himage'
  cases hname.symm.trans hname'
  cases hcompile.symm.trans hcompile'
  cases hrun.symm.trans hrun'
  cases hmemory.symm.trans hmemory'
  cases htime.symm.trans htime'
  rfl

theorem get_sourceFile {file : SourceFile} :
    ps.get place name position sourceFile = .ok (some file) ↔
      ps.get place name position text = .ok (some file.name) := by
  simp only [get_eq_ok_some, sourceFile_eq_ok]

/-- **A profile is what its tree says.** -/
theorem profile_eq_ok {p : Profile} :
    profile place d = .ok p ↔ ProfileFields place d p.draft := by
  constructor
  · intro h
    obtain ⟨ps, hps, h⟩ := bind_eq_ok.1 h
    obtain ⟨image?, himage, h⟩ := bind_eq_ok.1 h
    obtain ⟨_, _, h⟩ := bind_eq_ok.1 h
    obtain ⟨file?, hfile, h⟩ := bind_eq_ok.1 h
    obtain ⟨_, _, h⟩ := bind_eq_ok.1 h
    obtain ⟨compile, hcompile, h⟩ := bind_eq_ok.1 h
    obtain ⟨run?, hrun, h⟩ := bind_eq_ok.1 h
    obtain ⟨_, _, h⟩ := bind_eq_ok.1 h
    obtain ⟨memory, hmemory, h⟩ := bind_eq_ok.1 h
    obtain ⟨time, htime, h⟩ := bind_eq_ok.1 h
    obtain ⟨image, hi, h⟩ := bind_eq_ok.1 h
    obtain ⟨file, hf, h⟩ := bind_eq_ok.1 h
    obtain ⟨run, hr, h⟩ := bind_eq_ok.1 h
    cases h
    rw [require_eq_ok.1 hi] at himage
    rw [require_eq_ok.1 hf] at hfile
    rw [require_eq_ok.1 hr] at hrun
    exact .intro hps himage (get_sourceFile.1 hfile) hcompile hrun hmemory htime
  · obtain ⟨image, file, compile, run, memory, time⟩ := p
    intro h
    generalize hr : Profile.draft ⟨image, file, compile, run, memory, time⟩ = r at h
    obtain ⟨hps, himage, hname, hcompile, hrun, hmemory, htime⟩ := h
    cases hr
    refine bind_eq_ok.2 ⟨_, hps, bind_eq_ok.2 ⟨_, himage, bind_eq_ok.2 ⟨_, goOn_some _, ?_⟩⟩⟩
    refine bind_eq_ok.2 ⟨_, get_sourceFile.2 hname, bind_eq_ok.2 ⟨_, goOn_some _, ?_⟩⟩
    refine bind_eq_ok.2 ⟨_, hcompile, bind_eq_ok.2 ⟨_, hrun, bind_eq_ok.2 ⟨_, goOn_some _, ?_⟩⟩⟩
    refine bind_eq_ok.2 ⟨_, hmemory, bind_eq_ok.2 ⟨_, htime, ?_⟩⟩
    refine bind_eq_ok.2 ⟨_, require_eq_ok.2 rfl, bind_eq_ok.2 ⟨_, require_eq_ok.2 rfl, ?_⟩⟩
    exact bind_eq_ok.2 ⟨_, require_eq_ok.2 rfl, rfl⟩

/-! ### Languages -/

/-- The profiles of the languages are converted one by one. -/
theorem profiles_eq_ok {es : List (String × Data)} {qs : List (String × Profile)} :
    profiles place es = .ok qs ↔
      List.Forall₂ (fun e q => e.1 = q.1 ∧ profile (place ++ [.key e.1]) e.2 = .ok q.2) es qs := by
  induction es generalizing qs with
  | nil =>
    rw [List.forall₂_nil_left_iff]
    exact ⟨fun h => by cases h; rfl, fun h => h ▸ rfl⟩
  | cons e es ih =>
    obtain ⟨id, d⟩ := e
    rw [List.forall₂_cons_left_iff]
    constructor
    · intro h
      obtain ⟨p, hp, h⟩ := bind_eq_ok.1 h
      obtain ⟨qs', hqs, h⟩ := bind_eq_ok.1 h
      cases h
      exact ⟨(id, p), qs', ⟨rfl, hp⟩, ih.1 hqs, rfl⟩
    · rintro ⟨⟨id', p⟩, qs', ⟨rfl, hp⟩, hqs, rfl⟩
      exact bind_eq_ok.2 ⟨p, hp, bind_eq_ok.2 ⟨qs', ih.2 hqs, rfl⟩⟩

/-- **The order of the languages does not matter to their conversion.** -/
theorem profiles_perm {es es' : List (String × Data)} {qs : List (String × Profile)}
    (h : profiles place es = .ok qs) (hperm : es.Perm es') :
    ∃ qs', qs.Perm qs' ∧ profiles place es' = .ok qs' := by
  simp only [profiles_eq_ok] at h ⊢
  obtain ⟨qs', hqs', hperm'⟩ := List.perm_comp_forall₂ hperm.symm h
  exact ⟨qs', hperm'.symm, hqs'⟩

/-- The tree has these languages: none if nothing is said of them, else those of a table. -/
inductive LanguageFields (ps : Parts) : List (String × Profile.Draft) → Prop
  | unsaid (unsaid : ps.part? [] "languages" 4 = none) : LanguageFields ps []
  | table {place : Place} {es : List (String × Data)} {rs : List (String × Profile.Draft)}
      (said : ps.part? [] "languages" 4 = some (place, .table es))
      (fields : List.Forall₂
        (fun e r => e.1 = r.1 ∧ ProfileFields (place ++ [.key e.1]) e.2 r.2) es rs) :
      LanguageFields ps rs

end Conversion

/-- The tree has these fields of a configuration, each of the right type; what is not said keeps its
default. -/
inductive Config.Fields (d : Data) : Config.Draft → Prop
  | intro {ps : Conversion.Parts} {host : Option (Option String)} {pool : Option PoolSettings}
      {maxOutput : Option UInt64} {fallbackTime : Option Binary64}
      {languages : List (String × Profile.Draft)} (parts_eq : ps = .named (KeyPath.entriesOf d))
      (host_ok : ps.get [] "docker_host" 0 (Conversion.optional Conversion.text) = .ok host)
      (pool_ok : ps.get [] "pool" 1 Conversion.poolSettings = .ok pool)
      (output_ok : ps.get [] "max_output" 2 Conversion.count = .ok maxOutput)
      (fallback_ok : ps.get [] "fallback_time_limit" 3 Conversion.seconds = .ok fallbackTime)
      (languages_ok : Conversion.LanguageFields ps languages) :
      Config.Fields d ⟨host.join, pool.getD {}, maxOutput.getD 10240, fallbackTime.getD fiveSeconds,
        languages⟩

namespace Conversion

variable {ps : Parts} {rs rs' : List (String × Profile.Draft)}

/-- A tree has at most one set of languages. -/
theorem LanguageFields.unique (h : LanguageFields ps rs) (h' : LanguageFields ps rs') :
    rs = rs' := by
  cases h with
  | unsaid unsaid =>
    cases h' with
    | unsaid _ => rfl
    | table said _ =>
      rw [unsaid] at said
      cases said
  | table said fields =>
    cases h' with
    | unsaid unsaid =>
      rw [unsaid] at said
      cases said
    | table said' fields' =>
      cases said.symm.trans said'
      refine List.right_unique_forall₂' (fun e r r' hr hr' => ?_) fields fields'
      exact Prod.ext (hr.1.symm.trans hr'.1) (hr.2.unique hr'.2)

/-- The languages of a configuration are those that its tree has. -/
theorem get_languages {qs : List (String × Profile)} :
    (∃ found, ps.get [] "languages" 4 languages = .ok found ∧ found.getD [] = qs) ↔
      LanguageFields ps (qs.map fun q => (q.1, q.2.draft)) := by
  constructor
  · rintro ⟨found, hfound, rfl⟩
    cases found with
    | none => exact .unsaid (get_eq_ok_none.1 hfound)
    | some qs =>
      obtain ⟨place, d, said, h⟩ := get_eq_ok_some.1 hfound
      unfold languages at h
      split at h
      · rw [Option.getD_some]
        refine .table said (List.forall₂_map_right_iff.2 ?_)
        simpa only [profile_eq_ok] using profiles_eq_ok.1 h
      · cases h
  · intro h
    generalize hrs : (qs.map fun q => (q.1, q.2.draft)) = rs at h
    cases h with
    | unsaid unsaid => exact ⟨none, get_eq_ok_none.2 unsaid, (List.map_eq_nil_iff.1 hrs).symm⟩
    | @table place es _ said fields =>
      subst hrs
      refine ⟨some qs, get_eq_ok_some.2 ⟨place, .table es, said, ?_⟩, rfl⟩
      refine profiles_eq_ok.2 ?_
      simpa only [profile_eq_ok] using List.forall₂_map_right_iff.1 fields

end Conversion

namespace Config

variable {d : Data} {r r' : Draft} {c : Config}

/-- A tree has at most one set of fields. -/
theorem Fields.unique (h : Fields d r) (h' : Fields d r') : r = r' := by
  obtain ⟨rfl, hhost, hpool, houtput, hfallback, hlanguages⟩ := h
  obtain ⟨rfl, hhost', hpool', houtput', hfallback', hlanguages'⟩ := h'
  cases hhost.symm.trans hhost'
  cases hpool.symm.trans hpool'
  cases houtput.symm.trans houtput'
  cases hfallback.symm.trans hfallback'
  rw [hlanguages.unique hlanguages']

/-- **A configuration is what its tree says.** -/
theorem ofData_eq_ok : ofData d = .ok c ↔ Fields d c.draft := by
  constructor
  · intro h
    obtain ⟨host, hhost, h⟩ := bind_eq_ok.1 h
    obtain ⟨pool, hpool, h⟩ := bind_eq_ok.1 h
    obtain ⟨maxOutput, houtput, h⟩ := bind_eq_ok.1 h
    obtain ⟨fallbackTime, hfallback, h⟩ := bind_eq_ok.1 h
    obtain ⟨languages, hlanguages, h⟩ := bind_eq_ok.1 h
    cases h
    exact .intro rfl hhost hpool houtput hfallback
      (Conversion.get_languages.1 ⟨languages, hlanguages, rfl⟩)
  · obtain ⟨host, pool, maxOutput, fallbackTime, languages⟩ := c
    intro h
    generalize hr : draft ⟨host, pool, maxOutput, fallbackTime, languages⟩ = r at h
    obtain ⟨rfl, hhost, hpool, houtput, hfallback, hlanguages⟩ := h
    cases hr
    obtain ⟨found, hfound, rfl⟩ := Conversion.get_languages.2 hlanguages
    refine bind_eq_ok.2 ⟨_, hhost, bind_eq_ok.2 ⟨_, hpool, bind_eq_ok.2 ⟨_, houtput, ?_⟩⟩⟩
    exact bind_eq_ok.2 ⟨_, hfallback, bind_eq_ok.2 ⟨_, hfound, rfl⟩⟩

end Config

end Isolate
