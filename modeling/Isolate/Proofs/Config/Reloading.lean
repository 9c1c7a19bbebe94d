import Isolate.CommandLine.Report
import Isolate.Proofs.Config.Ids
import Isolate.Proofs.Json.RoundTrip

/-!
# Shown languages, loaded again

The languages of a configuration are shown as a JSON object. Put under the key of the languages in a
document of its own, that object is a configuration with the same languages.

* `writable_languagesData`: the object can be written;
* `profile_profileData`, `ofEntries_languages`: it is converted to the languages it shows;
* `ofJson_languages`, `ofJson_of_ofText`: the way from a configuration to a text and back;
* `languages_reload`: what this means for the languages that are looked up.
-/

namespace Isolate.Config

open CommandLine CommandLine.Report Json

variable {c : Config} {p : Profile} {place : Place} {α : Type} {depth : ℕ}
  {float? : Numeral → Option Binary64}

/-! ### What is written -/

theorem writable_orNull {f : α → Data} {o : Option α} (h : ∀ a ∈ o, Writable float? depth (f a)) :
    Writable float? depth (orNull f o) := by
  cases o with
  | none => exact .null
  | some a => exact h a rfl

theorem writable_texts (ss : List String) : Writable float? (depth + 1) (.texts ss) := by
  refine .list fun d hd => ?_
  obtain ⟨s, -, rfl⟩ := List.mem_map.1 hd
  exact .text s

/-- The limits of a valid profile are numbers that can be written. -/
theorem writable_profileData (hvalid : p.Valid) (hread : ∀ x ∈ p.time, ReadsNearest float? x) :
    Writable float? (depth + 2) (profileData p) := by
  have hmemory : Writable float? (depth + 1) (orNull (fun n => .int n.toNat) p.memory) :=
    writable_orNull fun n _ => .int (by unfold bound63; omega)
      (by have := n.toNat_lt; unfold bound64; omega)
  have htime : Writable float? (depth + 1) (orNull .float p.time) := by
    refine writable_orNull fun x hx => .float ?_ (hread x hx)
    have := hvalid.time x hx
    rw [isTimeSetting, Bool.and_eq_true] at this
    exact this.1
  refine .table (by simp) fun e he => ?_
  simp only [List.mem_cons, List.not_mem_nil, or_false] at he
  rcases he with rfl | rfl | rfl | rfl | rfl | rfl
  · exact .text _
  · exact .text _
  · exact writable_orNull fun ss _ => writable_texts ss
  · exact writable_texts _
  · exact hmemory
  · exact htime

theorem perm_sorted (entries : List (String × α)) : (sorted entries).Perm entries :=
  List.mergeSort_perm _ _

theorem writable_languagesData (hvalid : c.Valid) (hids : (c.languages.map Prod.fst).Nodup)
    (hread : ∀ entry ∈ c.languages, ∀ x ∈ entry.2.time, ReadsNearest float? x) :
    Writable float? (depth + 3) (languagesData c) := by
  have hperm := perm_sorted c.languages
  refine .table ?_ fun e he => ?_
  · rw [List.map_map]
    exact (hperm.map _).nodup_iff.2 hids
  · obtain ⟨entry, hentry, rfl⟩ := List.mem_map.1 he
    have hmem := hperm.mem_iff.1 hentry
    exact writable_profileData (hvalid.languages entry hmem) (hread entry hmem)

/-! ### What is read -/

theorem get_of_lookup {es : List (String × Data)} {name : String} {d : Data} {position : ℕ} {a : α}
    {convert : Place → Data → Conversion.Result α} (hlookup : es.lookup name = some d)
    (h : convert (place ++ [.key name]) d = .ok a) :
    (Conversion.Parts.named es).get place name position convert = .ok (some a) :=
  Conversion.get_eq_ok_some.2 ⟨_, d, by rw [Conversion.Parts.part?, hlookup]; rfl, h⟩

theorem texts_texts (ss : List String) : Conversion.texts place (.texts ss) = .ok ss := by
  have hitems : ∀ start, Conversion.items Conversion.text place start (ss.map .text) = .ok ss := by
    induction ss with
    | nil => exact fun _ => rfl
    | cons s ss ih => exact fun start => bind_eq_ok.2 ⟨s, rfl, bind_eq_ok.2 ⟨ss, ih _, rfl⟩⟩
  exact hitems 0

theorem optional_orNull {convert : Place → Data → Conversion.Result α} {f : α → Data} {o : Option α}
    (h : ∀ a, convert place (f a) = .ok a ∧ f a ≠ .null) :
    Conversion.optional convert place (orNull f o) = .ok o := by
  cases o with
  | none => rfl
  | some a =>
    obtain ⟨hconvert, hnull⟩ := h a
    unfold Conversion.optional orNull
    split
    · rename_i hd
      exact absurd hd hnull
    · exact map_eq_ok.2 ⟨a, hconvert, rfl⟩

theorem count_int (n : UInt64) : Conversion.count place (.int n.toNat) = .ok n := by
  rw [Conversion.count, if_neg (by omega), Int.toNat_natCast, UInt64.ofNat_toNat]

/-- **A profile is converted from what is shown of it.** -/
theorem profile_profileData (place : Place) (p : Profile) :
    Conversion.profile place (profileData p) = .ok p := by
  have hcompile : ∀ place : Place,
      Conversion.optional Conversion.texts place (orNull .texts p.compile) = .ok p.compile :=
    fun place => optional_orNull fun ss => ⟨texts_texts ss, nofun⟩
  have hmemory : ∀ place : Place, Conversion.optional Conversion.count place
      (orNull (fun n => .int n.toNat) p.memory) = .ok p.memory :=
    fun place => optional_orNull fun n => ⟨count_int n, nofun⟩
  have htime : ∀ place : Place,
      Conversion.optional Conversion.seconds place (orNull .float p.time) = .ok p.time :=
    fun place => optional_orNull fun x => ⟨rfl, nofun⟩
  have hfields : Conversion.ProfileFields place (profileData p)
      ⟨p.image, p.sourceFile.name, (some p.compile).join, p.run, (some p.memory).join,
        (some p.time).join⟩ :=
    .intro rfl (get_of_lookup rfl rfl) (get_of_lookup rfl rfl) (get_of_lookup rfl (hcompile _))
      (get_of_lookup rfl (texts_texts p.run)) (get_of_lookup rfl (hmemory _))
      (get_of_lookup rfl (htime _))
  exact Conversion.profile_eq_ok.2 hfields

/-- Entries with new keys that are merged into others are put behind them. -/
theorem mergeEntries_eq_append {es : List (String × Data)}
    (hmerge : ∀ e ∈ es, KeyPath.merge e.2 .null = e.2) :
    ∀ old : List (String × Data), ((old ++ es).map Prod.fst).Nodup →
      KeyPath.mergeEntries es old = old ++ es := by
  induction es with
  | nil => exact fun old _ => (List.append_nil old).symm
  | cons e es ih =>
    intro old h
    have hnew := notMem_keys h
    rw [KeyPath.mergeEntries, lookup_of_notMem hnew, Option.getD_none, hmerge e List.mem_cons_self,
      put_of_notMem hnew, ih (fun e he => hmerge e (List.mem_cons_of_mem _ he)) _
        (by simpa using h), List.append_assoc, List.singleton_append]

/-- Nothing is lost of a tree that is put where there is nothing. -/
theorem merge_null {d : Data} (h : Writable float? depth d) : KeyPath.merge d .null = d := by
  induction h with
  | null => rfl
  | bool b => rfl
  | int hlow hhigh => rfl
  | float hx hread => rfl
  | text s => rfl
  | list h ih => rfl
  | @table _ entries hkeys h ih =>
    rw [KeyPath.merge]
    exact congrArg Data.table (mergeEntries_eq_append ih [] hkeys)

theorem expand_languages (d : Data) :
    KeyPath.expand [("languages", d)] = .table [("languages", KeyPath.merge d .null)] := by
  have hkey : KeyPath.ofKey "languages" = [.key "languages"] := by decide +kernel
  rw [KeyPath.expand, List.foldl_cons, List.foldl_nil, hkey]
  rfl

/-- **The languages are converted from what is shown of them,** and accepted. -/
theorem ofEntries_languages (hvalid : c.Valid) (hshown : Writable float? depth (languagesData c)) :
    ofEntries (some [("languages", languagesData c)]) =
      .ok { languages := sorted c.languages } := by
  refine ofEntries_eq_ok.2 ⟨_, rfl, ?_, ?_⟩
  · have hfields : List.Forall₂ (fun (e : String × Data) (r : String × Profile.Draft) =>
        e.1 = r.1 ∧ Conversion.ProfileFields ([.key "languages"] ++ [.key e.1]) e.2 r.2)
        ((sorted c.languages).map fun q => (q.1, profileData q.2))
        ((sorted c.languages).map fun q => (q.1, q.2.draft)) := by
      rw [List.forall₂_map_left_iff, List.forall₂_map_right_iff, List.forall₂_same]
      exact fun q _ => ⟨rfl, Conversion.profile_eq_ok.1 (profile_profileData _ q.2)⟩
    have hdraft : Fields (.table [("languages", languagesData c)])
        ⟨(none : Option (Option String)).join, (none : Option PoolSettings).getD {},
          (none : Option UInt64).getD 10240, (none : Option Binary64).getD fiveSeconds,
          (sorted c.languages).map fun q => (q.1, q.2.draft)⟩ :=
      .intro rfl (Conversion.get_eq_ok_none.2 rfl) (Conversion.get_eq_ok_none.2 rfl)
        (Conversion.get_eq_ok_none.2 rfl) (Conversion.get_eq_ok_none.2 rfl) (.table rfl hfields)
    rw [expand_languages, merge_null hshown]
    exact ofData_eq_ok.2 hdraft
  · have hfallback : isTimeSetting fiveSeconds = true := by decide
    have houtput : (10240 : UInt64) ≠ 0 := by decide
    refine firstDefect_eq_none.2 ⟨fun entry hentry => ?_, hfallback, houtput⟩
    exact hvalid.languages entry ((perm_sorted c.languages).mem_iff.1 hentry)

/-! ### The way back -/

/-- With its own reading of numbers, a JSON text is read as texts are. -/
theorem ofText_json (text : String) : ofText .json text = ofJson Numeral.float? text := rfl

/-- The document that sets nothing but the languages that are shown. -/
theorem ofJson_languages (hvalid : c.Valid) (hids : (c.languages.map Prod.fst).Nodup)
    (hread : ∀ entry ∈ c.languages, ∀ x ∈ entry.2.time, ReadsNearest float? x) :
    ofJson float? ("\x7b\"languages\": " ++ Json.pretty (languagesData c) ++ "\x7d") =
      .ok { languages := sorted c.languages } := by
  have hshown : Writable float? 126 (languagesData c) := writable_languagesData hvalid hids hread
  have htext : "\x7b\"languages\": " ++ Json.pretty (languagesData c) ++ "\x7d" = String.ofList
      ('\x7b' :: (quoted "languages" ++
        (Style.pretty.colon ++ (write .pretty 0 (languagesData c) ++ ['\x7d'])))) := by
    have hfront : "\x7b\"languages\": " =
        String.ofList ('\x7b' :: (quoted "languages" ++ Style.pretty.colon)) := by decide +kernel
    have hend : "\x7d" = String.ofList ['\x7d'] := rfl
    rw [Json.pretty, hfront, hend, ← String.ofList_append, ← String.ofList_append]
    simp only [List.cons_append, List.append_assoc]
  have hdocument : Writable float? 127 (.table [("languages", languagesData c)]) :=
    .table (by simp) (by simpa using hshown)
  rw [htext, ofJson, readBy_entry Style.blank_pretty hshown]
  have hentries : (Data.table [("languages", languagesData c)]).settled.entries? =
      some [("languages", languagesData c)] := by
    rw [hdocument.settled_eq]
    rfl
  exact (congrArg ofEntries hentries).trans (ofEntries_languages hvalid hshown)

/-- A configuration that was loaded has distinct ids, so nothing but the reading of its time limits
is asked for its languages to be loaded again. -/
theorem ofJson_of_ofText {format : Format} {text : String} (h : ofText format text = .ok c)
    (hread : ∀ entry ∈ c.languages, ∀ x ∈ entry.2.time, ReadsNearest float? x) :
    ofJson float? ("\x7b\"languages\": " ++ Json.pretty (languagesData c) ++ "\x7d") =
      .ok { languages := sorted c.languages } := by
  obtain ⟨entries, -, -, hdefect⟩ := ofText_eq_ok.1 h
  exact ofJson_languages (firstDefect_eq_none.1 hdefect) (nodup_ids_of_ofText h) hread

/-- **Shown languages can be loaded again.** The JSON object of languages that is shown of an accepted
configuration, put under the key of the languages in a document of its own, is accepted, and gives
every id the same profile. Of the reader of JSON only this is asked, that it reads the numeral that
is written for a time limit to the double that is nearest to that numeral. -/
theorem languages_reload (float? : Numeral → Option Binary64) (c : Config)
    (hvalid : c.firstDefect = none) (hids : (c.languages.map Prod.fst).Nodup)
    (hread : ∀ entry ∈ c.languages, ∀ x ∈ entry.2.time, ReadsNearest float? x) :
    (∃ header, (Report.ofConfig c).stdout =
      header ++ "\n\n" ++ Json.pretty (languagesData c) ++ "\n") ∧
    ∃ c', ofJson float? ("\x7b\"languages\": " ++ Json.pretty (languagesData c) ++ "\x7d") = .ok c' ∧
      c'.languages.Perm c.languages ∧ ∀ id, c'.profile? id = c.profile? id := by
  have hperm := perm_sorted c.languages
  refine ⟨⟨_, rfl⟩, _, ofJson_languages (firstDefect_eq_none.1 hvalid) hids hread, hperm, ?_⟩
  exact fun id => (lookup_perm hperm.symm hids id).symm

/-- Languages with ids that would spell paths or need escapes, the greatest memory limit, and two and
a half seconds. -/
def oddLanguages : Config where
  languages := [
    ("c++.17[0]\x01", ⟨"gcc:latest", ⟨"odd name.cpp", by decide⟩,
      some ["g++", "-o", "\"a\"\n", "\\"], ["./a", ""], some 18446744073709551615,
      some ⟨0x4004000000000000⟩⟩),
    ("", ⟨"alpine", ⟨"odd name.sh", by decide⟩, none, ["sh"], some 0, none⟩)]

theorem languages_reload_oddLanguages :
    (∃ header, (Report.ofConfig oddLanguages).stdout =
      header ++ "\n\n" ++ Json.pretty (languagesData oddLanguages) ++ "\n") ∧
    ∃ c', ofText .json
        ("\x7b\"languages\": " ++ Json.pretty (languagesData oddLanguages) ++ "\x7d") = .ok c' ∧
      c'.languages.Perm oddLanguages.languages ∧
      ∀ id, c'.profile? id = oddLanguages.profile? id := by
  have hread : ReadsNearest Numeral.float? ⟨0x4004000000000000⟩ :=
    readsNearest_of_eq (by decide +kernel)
      (show readNumeral _ = .ok (⟨false, ['2'], some ['5'], none⟩, []) from by rfl) (by decide +kernel)
  rw [ofText_json]
  refine languages_reload Numeral.float? oddLanguages (by decide) (by decide) ?_
  intro entry hentry x hx
  simp only [oddLanguages, List.mem_cons, List.not_mem_nil, or_false] at hentry
  rcases hentry with rfl | rfl
  · cases hx
    exact hread
  · cases hx

end Isolate.Config
