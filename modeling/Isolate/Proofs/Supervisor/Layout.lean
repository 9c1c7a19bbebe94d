import Mathlib.Tactic
import Isolate.Supervisor.Inventory

/-!
# Which pool belongs to which task

The pool of a language and the task that keeps it filled stand at the same place of their lists, and
no two pools are for the same language. So a change to the pool of a language is a change at one
place, and it is the place of the upkeep task of that language.

* `goOn_eq`, `spawn_eq`: what becomes of a supervisor when a task goes on or is begun;
* `pool?_eq_some`, `setPool_eq`: the pool of a language as a place in the list of pools;
* `Laid`: the invariant, `laid_start` and `Laid.keeper`.
-/

namespace Isolate

/-! ### Changing one place of a list -/

/-- What one place of a list contributes to a count is exchanged when the place is changed. -/
theorem count_flatMap_set {α β : Type} [DecidableEq β] (f : α → List β) (x : β) {l : List α} {i : ℕ}
    {a : α} (b : α) (h : l[i]? = some a) :
    ((l.set i b).flatMap f).count x + (f a).count x = (l.flatMap f).count x + (f b).count x := by
  induction l generalizing i with
  | nil => simp at h
  | cons c l ih =>
    cases i with
    | zero =>
      simp only [List.getElem?_cons_zero, Option.some.injEq] at h
      subst h
      simp only [List.set_cons_zero, List.flatMap_cons, List.count_append]
      omega
    | succ i =>
      simp only [List.getElem?_cons_succ] at h
      have := ih h
      simp only [List.set_cons_succ, List.flatMap_cons, List.count_append]
      omega

/-- What a place of a list contributes to a count is no more than the whole. -/
theorem count_le_count_flatMap {α β : Type} [DecidableEq β] (f : α → List β) (x : β) {l : List α}
    {i : ℕ} {a : α} (h : l[i]? = some a) : (f a).count x ≤ (l.flatMap f).count x := by
  obtain ⟨l₁, l₂, rfl⟩ := List.append_of_mem (List.mem_of_getElem? h)
  simp only [List.flatMap_append, List.flatMap_cons, List.count_append]
  omega

/-- Two places of a list together contribute no more than the whole. -/
theorem count_add_count_le {α β : Type} [DecidableEq β] (f : α → List β) (x : β) {l : List α}
    {i j : ℕ} {a b : α} (hij : i ≠ j) (hi : l[i]? = some a) (hj : l[j]? = some b) :
    (f a).count x + (f b).count x ≤ (l.flatMap f).count x := by
  -- put an element that contributes nothing more than `b` does in the place of `a`
  induction l generalizing i j with
  | nil => simp at hi
  | cons c l ih =>
    simp only [List.flatMap_cons, List.count_append]
    cases i with
    | zero =>
      cases j with
      | zero => exact absurd rfl hij
      | succ j =>
        simp only [List.getElem?_cons_zero, Option.some.injEq, List.getElem?_cons_succ] at hi hj
        subst hi
        have := count_le_count_flatMap f x hj
        omega
    | succ i =>
      cases j with
      | zero =>
        simp only [List.getElem?_cons_zero, Option.some.injEq, List.getElem?_cons_succ] at hi hj
        subst hj
        have := count_le_count_flatMap f x hi
        omega
      | succ j =>
        simp only [List.getElem?_cons_succ] at hi hj
        have := ih (by omega) hi hj
        omega

theorem nodup_eraseDups {α : Type} [DecidableEq α] (l : List α) : l.eraseDups.Nodup := by
  induction h : l.length using Nat.strong_induction_on generalizing l with
  | _ n ih =>
    cases l with
    | nil => simp
    | cons a l =>
      rw [List.eraseDups_cons, List.nodup_cons]
      refine ⟨by simp, ih _ ?_ _ rfl⟩
      have := List.length_filter_le (fun b => !b == a) l
      simp only [List.length_cons] at h
      omega

namespace Supervisor

/-! ### Updates -/

/-- The calls recorded when a task comes into a state. -/
def callsOf (k : ℕ) (t : Task) : List (ℕ × Call) := (t.call?.map (k, ·)).toList

theorem record_eq (s : Supervisor) (k : ℕ) (t : Task) :
    s.record k t = { s with calls := callsOf k t ++ s.calls } := by
  unfold record callsOf
  cases t.call? <;> rfl

theorem goOn_eq (s : Supervisor) (k : ℕ) (t : Task) :
    s.goOn k t = { s with tasks := s.tasks.set k t, calls := callsOf k t ++ s.calls } := by
  simp [goOn, record_eq]

theorem spawn_eq (s : Supervisor) (t : Task) :
    s.spawn t =
      { s with tasks := s.tasks ++ [t], calls := callsOf s.tasks.length t ++ s.calls } := by
  simp [spawn, record_eq]

/-! ### The pool of a language -/

/-- No two pools are for the same language. -/
def Distinct (pools : List WarmPool) : Prop := (pools.map (·.language)).Nodup

variable {s : Supervisor}

theorem pool?_eq_some {language : String} {pool : WarmPool} (h : s.pool? language = some pool) :
    pool.language = language ∧ ∃ i : ℕ, s.pools[i]? = some pool := by
  refine ⟨by simpa using List.find?_some h, ?_⟩
  exact List.mem_iff_getElem?.1 (List.mem_of_find?_eq_some h)

theorem Distinct.index_unique {pools : List WarmPool} (hd : Distinct pools) {i j : ℕ}
    {p q : WarmPool}
    (hi : pools[i]? = some p) (hj : pools[j]? = some q) (h : p.language = q.language) : i = j := by
  have hlt : i < (pools.map (·.language)).length := by
    rw [List.length_map]
    exact (List.getElem?_eq_some_iff.1 hi).1
  have he : (pools.map (·.language))[i]? = (pools.map (·.language))[j]? := by
    rw [List.getElem?_map, List.getElem?_map, hi, hj, Option.map_some, Option.map_some, h]
  exact (List.getElem?_inj hlt hd).1 he

/-- A pool is found by its language. -/
theorem pool?_of_getElem? (hd : Distinct s.pools) {i : ℕ} {pool : WarmPool}
    (h : s.pools[i]? = some pool) : s.pool? pool.language = some pool := by
  cases hp : s.pool? pool.language with
  | none =>
    have := List.find?_eq_none.1 hp pool (List.mem_of_getElem? h)
    simp at this
  | some q =>
    obtain ⟨hl, j, hj⟩ := pool?_eq_some hp
    have hij := hd.index_unique hj h hl
    subst hij
    rw [← hj, h]

/-- A change to the pool of a language is a change at one place. -/
theorem setPool_eq (hd : Distinct s.pools) {i : ℕ} {pool pool' : WarmPool}
    (h : s.pools[i]? = some pool) (hl : pool'.language = pool.language) :
    s.setPool pool' = { s with pools := s.pools.set i pool' } := by
  unfold setPool
  congr 1
  apply List.ext_getElem?
  intro j
  rw [List.getElem?_map, List.getElem?_set]
  by_cases hij : i = j
  · subst hij
    rw [if_pos rfl, if_pos (List.getElem?_eq_some_iff.1 h).1, h, Option.map_some, if_pos hl.symm]
  · rw [if_neg hij]
    cases hj : s.pools[j]? with
    | none => rfl
    | some p =>
      have hne : p.language ≠ pool'.language := fun he =>
        hij (hd.index_unique h hj (by rw [he, hl]))
      rw [Option.map_some, if_neg hne]

/-! ### Pools and upkeep tasks -/

end Supervisor

/-- The language whose pool a task keeps filled. -/
def Task.language? : Task → Option String
  | .upkeep u => some u.language
  | _ => none

namespace Supervisor

/-- Pools and upkeep tasks of the same languages stand at the same places, and all containers are
provided by upkeep tasks and runs. -/
structure Laid (s : Supervisor) : Prop where
  distinct : Distinct s.pools
  matched : ∀ i : ℕ, (s.tasks[i]?).bind Task.language? = (s.pools[i]?).map (·.language)
  no_provision : ∀ p, Task.provision p ∉ s.tasks

/-- The pool of an upkeep task stands at the place of the task. -/
theorem Laid.keeper {s : Supervisor} (hs : s.Laid) {k : ℕ} {u : Upkeep}
    (h : s.tasks[k]? = some (.upkeep u)) :
    ∃ pool, s.pools[k]? = some pool ∧ pool.language = u.language ∧
      s.pool? u.language = some pool := by
  have hm := hs.matched k
  rw [h] at hm
  cases hp : s.pools[k]? with
  | none => simp [hp, Task.language?] at hm
  | some pool =>
    have hl : pool.language = u.language := by simpa [hp, Task.language?] using hm.symm
    exact ⟨pool, rfl, hl, hl ▸ pool?_of_getElem? hs.distinct hp⟩

/-- Each pool has its upkeep task. -/
theorem Laid.kept {s : Supervisor} (hs : s.Laid) {i : ℕ} {pool : WarmPool}
    (h : s.pools[i]? = some pool) : ∃ u, s.tasks[i]? = some (.upkeep u) ∧
      u.language = pool.language := by
  have hm := hs.matched i
  rw [h, Option.map_some] at hm
  obtain ⟨t, ht, hl⟩ := Option.bind_eq_some_iff.1 hm
  cases t with
  | upkeep u => exact ⟨u, ht, by simpa [Task.language?] using hl⟩
  | _ => simp [Task.language?] at hl

theorem keepers_language (c : Config) : ((keepers c).map (·.language)).Nodup := by
  unfold keepers
  split_ifs with h
  · simp
  · rw [List.map_filterMap]
    refine (List.Nodup.filterMap ?_ (nodup_eraseDups _))
    intro a b x ha hb
    simp only [Option.map_map, Option.mem_def, Option.map_eq_some_iff, Function.comp] at ha hb
    obtain ⟨_, _, rfl⟩ := ha
    obtain ⟨_, _, hx⟩ := hb
    exact hx.symm

/-- An upkeep task starts by waiting, and provides what the profile of its language says. -/
theorem mem_keepers {c : Config} {u : Upkeep} (h : u ∈ keepers c) :
    ∃ p, c.profile? u.language = some p ∧
      u = .begin c.pool 0 u.language (p.containerSpec none) := by
  unfold keepers at h
  split_ifs at h
  · cases h
  · obtain ⟨id, _, hp⟩ := List.mem_filterMap.1 h
    obtain ⟨p, hq, rfl⟩ := Option.map_eq_some_iff.1 hp
    exact ⟨p, hq, rfl⟩

/-- What a supervisor starts with: an upkeep task and an empty pool for each language, and nothing
else. -/
theorem start?_eq_some {c : Config} {epoch : ℕ} {s : Supervisor} (h : start? c epoch = some s) :
    s = ⟨c, epoch, 0, false,
      (keepers c).map fun u => .empty u.language c.pool.size.toNat,
      List.range (keepers c).length, (keepers c).map .upkeep, []⟩ := by
  unfold start? at h
  simp only at h
  split_ifs at h
  simpa using h.symm

theorem laid_start {c : Config} {epoch : ℕ} {s : Supervisor} (h : start? c epoch = some s) :
    s.Laid := by
  rw [start?_eq_some h]
  refine ⟨?_, fun i => ?_, by simp⟩
  · simpa [Distinct, Function.comp_def, WarmPool.empty] using keepers_language c
  · simp only [List.getElem?_map, Option.map_map]
    cases (keepers c)[i]? <;> simp [Task.language?, WarmPool.empty]

end Supervisor

/-- One language, and a pool with one place for it. -/
def Config.small : Config where
  pool := { size := 1 }
  languages := [("sh", ⟨"alpine", ⟨"main.sh", by decide⟩, none, ["sh", "main.sh"], none, none⟩)]

end Isolate
