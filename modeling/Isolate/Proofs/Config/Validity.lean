import Mathlib.Tactic
import Isolate.Config.Validity

/-!
# Configurations without a defect

The search for a defect looks at one language after the other and stops at the first defect. What it
decides is a property of all languages together, whatever their order.

* `Profile.firstDefect_eq_none`, `Config.firstDefect_eq_none`: no defect is found if and only if
  there is none;
* `Config.firstDefect_perm`: the order of the languages does not matter for that.
-/

namespace Isolate

theorem Profile.firstDefect_eq_none {p : Profile} : p.firstDefect = none ↔ p.Valid := by
  unfold firstDefect
  constructor
  · intro h
    split_ifs at h with himage hrun hcompile
    refine ⟨himage, hrun, hcompile, fun x hx => ?_⟩
    rw [Option.mem_def.1 hx] at h
    by_contra htime
    simp [htime] at h
  · intro h
    rw [if_neg h.image, if_neg h.run, if_neg h.compile]
    cases hx : p.time with
    | none => rfl
    | some x => exact if_pos (h.time x hx)

namespace Config

variable {c : Config}

/-- **A configuration is accepted if and only if it is valid.** -/
theorem firstDefect_eq_none : c.firstDefect = none ↔ c.Valid := by
  have hlanguages : (c.languages.findSome? fun entry =>
      entry.2.firstDefect.map (Defect.language entry.1)) = none ↔
        ∀ entry ∈ c.languages, entry.2.Valid := by
    rw [List.findSome?_eq_none_iff]
    refine forall₂_congr fun entry _ => ?_
    rw [Option.map_eq_none_iff, Profile.firstDefect_eq_none]
  unfold firstDefect
  constructor
  · intro h
    dsimp only at h
    split at h
    · cases h
    · rename_i hnone
      split_ifs at h with htime hout
      exact ⟨hlanguages.1 hnone, by simpa using htime, hout⟩
  · intro h
    dsimp only
    split
    · rename_i defect hdefect
      cases (hlanguages.2 h.languages).symm.trans hdefect
    · simp [h.fallbackTime, h.maxOutput]

/-- Validity says nothing about the order of the languages. -/
theorem Valid.perm {languages : List (String × Profile)} (h : c.Valid)
    (hperm : c.languages.Perm languages) : ({ c with languages } : Config).Valid :=
  ⟨fun entry hentry => h.languages entry (hperm.mem_iff.2 hentry), h.fallbackTime, h.maxOutput⟩

/-- **The order of the languages does not decide whether there is a defect.** -/
theorem firstDefect_perm {languages : List (String × Profile)}
    (hperm : c.languages.Perm languages) :
    ({ c with languages } : Config).firstDefect = none ↔ c.firstDefect = none := by
  rw [firstDefect_eq_none, firstDefect_eq_none]
  exact ⟨fun h => h.perm hperm.symm, fun h => h.perm hperm⟩

end Config

end Isolate
