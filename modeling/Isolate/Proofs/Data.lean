import Mathlib.Data.List.Nodup
import Isolate.Data

/-!
# Entries with distinct keys

* `lookup_eq_some_iff_mem`, `lookup_perm`: where keys are distinct, their order does not matter;
* `put_of_notMem`, `mem_put`, `nodup_put`: what becomes of entries if a value is put under a key;
* `distinct_eq_self`, `settledEntries_eq_self`: what is left as it is because its keys are distinct.
-/

namespace Isolate

variable {α β : Type} {d : Data} {key : String} {es entries : List (String × Data)}
  {items : List Data}

/-! ### Keys -/

/-- A key that occurs once does not occur before its place. -/
theorem notMem_keys {front back : List (String × α)} {e : String × α}
    (h : ((front ++ e :: back).map Prod.fst).Nodup) : e.1 ∉ front.map Prod.fst := by
  rw [List.map_append, List.nodup_append] at h
  exact fun hmem => h.2.2 _ hmem _ List.mem_cons_self rfl

/-- Lists that agree on the keys of their entries have the same keys. -/
theorem keys_eq_of_forall₂ {R : String × α → String × β → Prop}
    {xs : List (String × α)} {ys : List (String × β)} (hkey : ∀ x y, R x y → x.1 = y.1)
    (h : List.Forall₂ R xs ys) : xs.map Prod.fst = ys.map Prod.fst := by
  induction h with
  | nil => rfl
  | cons hhead _ ih => rw [List.map_cons, List.map_cons, hkey _ _ hhead, ih]

theorem lookup_eq_some_iff_mem {l : List (String × α)} (h : (l.map Prod.fst).Nodup) {key : String}
    {a : α} : l.lookup key = some a ↔ (key, a) ∈ l := by
  constructor
  · intro hlookup
    obtain ⟨l₁, l₂, rfl, -⟩ := List.lookup_eq_some_iff.1 hlookup
    simp
  · intro hmem
    obtain ⟨l₁, l₂, rfl⟩ := List.append_of_mem hmem
    refine List.lookup_eq_some_iff.2 ⟨l₁, l₂, rfl, fun q hq => ?_⟩
    rw [bne_iff_ne]
    exact fun heq => notMem_keys h (List.mem_map.2 ⟨q, hq, heq.symm⟩)

theorem lookup_of_notMem {l : List (String × α)} (h : key ∉ l.map Prod.fst) :
    l.lookup key = none := by
  rw [List.lookup_eq_none_iff]
  intro q hq
  rw [bne_iff_ne]
  exact fun heq => h (heq ▸ List.mem_map_of_mem hq)

/-- **Where keys are distinct, it does not matter in which order they stand.** -/
theorem lookup_perm {l l' : List (String × α)} (hperm : l.Perm l') (h : (l.map Prod.fst).Nodup)
    (key : String) : l.lookup key = l'.lookup key := by
  have h' : (l'.map Prod.fst).Nodup := (hperm.map _).nodup_iff.1 h
  refine Option.ext fun a => ?_
  rw [lookup_eq_some_iff_mem h, lookup_eq_some_iff_mem h', hperm.mem_iff]

/-! ### Values put under keys -/

theorem put_of_notMem {es : List (String × Data)} (h : key ∉ es.map Prod.fst) :
    Data.put key d es = es ++ [(key, d)] := by
  induction es with
  | nil => rfl
  | cons e es ih =>
    rw [List.map_cons, List.mem_cons, not_or] at h
    rw [Data.put, if_neg (Ne.symm h.1), ih h.2, List.cons_append]

theorem mem_put {e : String × Data} (h : e ∈ Data.put key d es) : e = (key, d) ∨ e ∈ es := by
  induction es with
  | nil => exact .inl (List.mem_singleton.1 h)
  | cons e' es ih =>
    rw [Data.put] at h
    split_ifs at h
    · exact (List.mem_cons.1 h).imp_right (List.mem_cons_of_mem _)
    · rcases List.mem_cons.1 h with rfl | hmem
      · exact .inr List.mem_cons_self
      · exact (ih hmem).imp_right (List.mem_cons_of_mem _)

theorem nodup_put (h : (es.map Prod.fst).Nodup) :
    ((Data.put key d es).map Prod.fst).Nodup := by
  induction es with
  | nil => simp [Data.put]
  | cons e es ih =>
    rw [List.map_cons, List.nodup_cons] at h
    rw [Data.put]
    split_ifs with heq
    · rw [List.map_cons, List.nodup_cons, ← heq]
      exact h
    · rw [List.map_cons, List.nodup_cons]
      refine ⟨fun hmem => ?_, ih h.2⟩
      obtain ⟨e', he', hkey⟩ := List.mem_map.1 hmem
      rcases mem_put he' with rfl | hold
      · exact heq hkey.symm
      · exact h.1 (hkey ▸ List.mem_map_of_mem hold)

/-! ### Trees that are settled -/

/-- Entries with new keys that are put one after the other are put behind those that are there. -/
theorem foldl_put (es : List (String × Data)) : ∀ kept : List (String × Data),
    ((kept ++ es).map Prod.fst).Nodup →
      es.foldl (fun es e => Data.put e.1 e.2 es) kept = kept ++ es := by
  induction es with
  | nil => exact fun kept _ => (List.append_nil kept).symm
  | cons e es ih =>
    intro kept h
    rw [List.foldl_cons, put_of_notMem (notMem_keys h), ih _ (by simpa using h), List.append_assoc,
      List.singleton_append]

/-- Entries with distinct keys are left as they are. -/
theorem distinct_eq_self (h : (entries.map Prod.fst).Nodup) : Data.distinct entries = entries :=
  foldl_put entries [] h

theorem settledItems_eq_self (h : ∀ d ∈ items, d.settled = d) :
    Data.settledItems items = items := by
  induction items with
  | nil => rfl
  | cons d ds ih =>
    rw [Data.settledItems, h d List.mem_cons_self, ih fun d hd => h d (List.mem_cons_of_mem _ hd)]

theorem settledEntries_eq_self (h : ∀ e ∈ entries, e.2.settled = e.2) :
    Data.settledEntries entries = entries := by
  induction entries with
  | nil => rfl
  | cons e es ih =>
    rw [Data.settledEntries, h e List.mem_cons_self, ih fun e he => h e (List.mem_cons_of_mem _ he)]

end Isolate
