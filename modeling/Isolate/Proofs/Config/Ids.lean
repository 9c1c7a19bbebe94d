import Isolate.Proofs.Config.Loading
import Isolate.Proofs.Data

/-!
# Ids of languages

Every id of a loaded configuration stands for one language, because no table of a tree has a key
twice once the keys of a document are put into it.

* `Config.Distinct`: trees in which no table has a key twice;
* `distinct_putPath`, `distinct_expand`: whatever is put where, trees stay so;
* `nodup_ids_of_ofText`: no two languages of a loaded configuration have the same id.
-/

namespace Isolate

namespace Config

variable {d old value : Data} {key : String} {es : List (String × Data)}

/-! ### Trees without repeated keys -/

/-- In the tree, and in the tables within its tables, every key occurs once. -/
inductive Distinct : Data → Prop
  | table {es : List (String × Data)} (hkeys : (es.map Prod.fst).Nodup)
      (h : ∀ e ∈ es, Distinct e.2) : Distinct (.table es)
  | other {d : Data} (h : d.entries? = none) : Distinct d

theorem Distinct.entriesOf (h : Distinct d) : ((KeyPath.entriesOf d).map Prod.fst).Nodup ∧
    ∀ e ∈ KeyPath.entriesOf d, Distinct e.2 := by
  cases h with
  | table hkeys h => exact ⟨hkeys, h⟩
  | other h =>
    have hnil : KeyPath.entriesOf d = [] := by cases d <;> first | rfl | cases h
    rw [hnil]
    simp

theorem distinct_lookup (h : ∀ e ∈ es, Distinct e.2) (key : String) :
    Distinct ((es.lookup key).getD .null) := by
  cases hlookup : es.lookup key with
  | none => exact .other rfl
  | some d =>
    obtain ⟨l₁, l₂, rfl, -⟩ := List.lookup_eq_some_iff.1 hlookup
    exact h (key, d) (by simp)

/-- A value put under a key of entries. -/
theorem distinct_put (hkeys : (es.map Prod.fst).Nodup) (h : ∀ e ∈ es, Distinct e.2)
    (hvalue : Distinct value) : ((Data.put key value es).map Prod.fst).Nodup ∧
      ∀ e ∈ Data.put key value es, Distinct e.2 := by
  refine ⟨nodup_put hkeys, fun e he => ?_⟩
  rcases mem_put he with rfl | hold
  · exact hvalue
  · exact h e hold

mutual

theorem distinct_merge : ∀ d old : Data, Distinct old → Distinct (KeyPath.merge d old)
  | .table es, old, h => by
    rw [KeyPath.merge]
    obtain ⟨hkeys, hes⟩ := h.entriesOf
    obtain ⟨hkeys', hes'⟩ := distinct_mergeEntries es _ hkeys hes
    exact .table hkeys' hes'
  | .null, _, _ => .other rfl
  | .bool _, _, _ => .other rfl
  | .int _, _, _ => .other rfl
  | .float _, _, _ => .other rfl
  | .text _, _, _ => .other rfl
  | .list _, _, _ => .other rfl

theorem distinct_mergeEntries : ∀ es old : List (String × Data), (old.map Prod.fst).Nodup →
    (∀ e ∈ old, Distinct e.2) → ((KeyPath.mergeEntries es old).map Prod.fst).Nodup ∧
      ∀ e ∈ KeyPath.mergeEntries es old, Distinct e.2
  | [], _, hkeys, h => ⟨hkeys, h⟩
  | (key, value) :: es, old, hkeys, h => by
    rw [KeyPath.mergeEntries]
    obtain ⟨hkeys', h'⟩ := distinct_put hkeys h (distinct_merge value _ (distinct_lookup h key))
    exact distinct_mergeEntries es _ hkeys' h'

end

/-- However a value is put into a tree, keys stay distinct. -/
theorem distinct_putPath (path : KeyPath) (value : Data) (h : Distinct old) :
    Distinct (KeyPath.put path value old) := by
  induction path generalizing old with
  | nil => exact distinct_merge value old h
  | cons step steps ih =>
    cases step with
    | key name =>
      obtain ⟨hkeys, hes⟩ := h.entriesOf
      obtain ⟨hkeys', hes'⟩ := distinct_put hkeys hes (ih (distinct_lookup hes name))
      exact .table hkeys' hes'
    | index place => exact .other rfl

theorem distinct_expand (entries : List (String × Data)) : Distinct (KeyPath.expand entries) := by
  have hfold : ∀ root, Distinct root →
      Distinct (entries.foldl (fun root e => KeyPath.put (KeyPath.ofKey e.1) e.2 root) root) := by
    induction entries with
    | nil => exact fun _ h => h
    | cons e es ih => exact fun root h => ih _ (distinct_putPath _ _ h)
  exact hfold _ (.table (by simp) (by simp))

/-- **No two languages of a loaded configuration have the same id,** whatever keys the text
repeats. -/
theorem nodup_ids_of_ofText {format : Format} {text : String} {c : Config}
    (h : ofText format text = .ok c) : (c.languages.map Prod.fst).Nodup := by
  obtain ⟨entries, -, hdata, -⟩ := ofText_eq_ok.1 h
  obtain ⟨-, hes⟩ := (distinct_expand entries).entriesOf
  have hfields := ofData_eq_ok.1 hdata
  have hids : c.draft.languages.map Prod.fst = c.languages.map Prod.fst := by
    rw [draft, List.map_map]
    rfl
  rw [← hids]
  generalize c.draft = r at hfields
  obtain ⟨rfl, -, -, -, -, hlanguages⟩ := hfields
  cases hlanguages with
  | unsaid _ => exact List.nodup_nil
  | @table place es _ said fields =>
    have hdistinct : Distinct (.table es) := by
      obtain ⟨d, hd, hpair⟩ := Option.map_eq_some_iff.1 said
      cases hpair
      have hfound := distinct_lookup hes "languages"
      rwa [hd] at hfound
    rw [← keys_eq_of_forall₂ (fun _ _ hentry => hentry.1) fields]
    exact hdistinct.entriesOf.1

end Config

end Isolate
