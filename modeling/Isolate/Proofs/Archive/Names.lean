import Isolate.Archive.Pack
import Isolate.Proofs.Result

/-!
# What is stored of a name

A name is stored without its dots and repeated slashes, and that is all that is lost of it.

* `steps`, `SamePath`: what a path says, up to single dots and repeated slashes;
* `parts_append`, `steps_append`: the parts of joined paths;
* `storeComponents_cons`: how the components of a path are stored one after the other;
* `fits_of_store`: what is stored fits the name field;
* `samePath_of_store`: what is stored of a name says the same.
-/

namespace Isolate.Archive

/-! ### Parts of paths -/

/-- The parts of a path that say something: they are neither empty nor a single dot. -/
def steps (path : List Char) : List (List Char) := (parts path).filter fun p => p ≠ [] ∧ p ≠ ['.']

/-- Two paths are the same up to single dots and repeated slashes. -/
structure SamePath (a b : List Char) : Prop where
  steps : steps a = steps b
  absolute : a.head? = some '/' ↔ b.head? = some '/'
  directory : a.getLast? = some '/' ↔ b.getLast? = some '/'

theorem SamePath.refl (a : List Char) : SamePath a a := ⟨rfl, Iff.rfl, Iff.rfl⟩

theorem parts_ne_nil (cs : List Char) : parts cs ≠ [] := by
  cases cs with
  | nil => exact List.cons_ne_nil _ _
  | cons c cs =>
    rw [parts]
    split_ifs
    · exact List.cons_ne_nil _ _
    · split <;> exact List.cons_ne_nil _ _

/-- A slash parts a path. -/
theorem parts_append (a b : List Char) : parts (a ++ '/' :: b) = parts a ++ parts b := by
  induction a with
  | nil => simp [parts]
  | cons c a ih =>
    rw [List.cons_append, parts, parts, ih]
    split_ifs
    · rfl
    · obtain ⟨p, ps, hp⟩ := List.exists_cons_of_ne_nil (parts_ne_nil a)
      rw [hp]
      rfl

theorem parts_of_notMem {cs : List Char} (h : '/' ∉ cs) : parts cs = [cs] := by
  induction cs with
  | nil => rfl
  | cons c cs ih =>
    obtain ⟨hc, hcs⟩ := not_or.1 (mt List.mem_cons.2 h)
    rw [parts, if_neg (Ne.symm hc), ih hcs]

theorem notMem_of_mem_parts {cs p : List Char} (h : p ∈ parts cs) : '/' ∉ p := by
  induction cs generalizing p with
  | nil =>
    rw [List.mem_singleton.1 h]
    exact List.not_mem_nil
  | cons c cs ih =>
    rw [parts] at h
    split_ifs at h with hc
    · rcases List.mem_cons.1 h with rfl | h
      · exact List.not_mem_nil
      · exact ih h
    · obtain ⟨q, qs, hq⟩ := List.exists_cons_of_ne_nil (parts_ne_nil cs)
      rw [hq] at h ih
      rcases List.mem_cons.1 h with rfl | h
      · exact List.not_mem_cons_of_ne_of_not_mem (Ne.symm hc) (ih List.mem_cons_self)
      · exact ih (List.mem_cons_of_mem _ h)

/-- A path has the steps of its parts. -/
theorem flatMap_parts (path : List Char) : (parts path).flatMap steps = steps path := by
  have hpart : ∀ ps : List (List Char), (∀ p ∈ ps, '/' ∉ p) →
      ps.flatMap steps = ps.filter fun p => p ≠ [] ∧ p ≠ ['.'] := by
    intro ps h
    induction ps with
    | nil => rfl
    | cons p ps ih =>
      rw [List.flatMap_cons, ih fun q hq => h q (List.mem_cons_of_mem p hq), steps,
        parts_of_notMem (h p List.mem_cons_self), ← List.filter_append]
      rfl
  exact hpart _ fun _ => notMem_of_mem_parts

theorem steps_append (a b : List Char) : steps (a ++ '/' :: b) = steps a ++ steps b := by
  rw [steps, parts_append, List.filter_append]
  rfl

/-- The text has no slash at its ends. -/
def Trim (text : List Char) : Prop := text.head? ≠ some '/' ∧ text.getLast? ≠ some '/'

theorem trim_of_notMem {text : List Char} (h : '/' ∉ text) : Trim text :=
  ⟨mt List.mem_of_mem_head? h, mt List.mem_of_mem_getLast? h⟩

/-! ### Storing components -/

theorem byteCount_append (a b : List Char) : byteCount (a ++ b) = byteCount a + byteCount b := by
  induction a with
  | nil => simp [byteCount]
  | cons c a ih => simp [byteCount, ih, Nat.add_assoc]

theorem put_eq_ok {stored cs r : List Char} : put stored cs = .ok r ↔
    byteCount stored + byteCount cs ≤ nameSize ∧ '\x00' ∉ cs ∧ r = stored ++ cs := by
  unfold put
  split_ifs with hlong hnul
  · simp [hlong]
  · simp only [List.contains_iff_mem] at hnul
    simp [hnul]
  · simp only [List.contains_iff_mem] at hnul
    simp [hnul, Nat.not_lt.1 hlong, eq_comm]

/-- What is stored so far, and one more component. -/
def joined (stored text : List Char) : List Char :=
  if stored = [] then text else stored ++ '/' :: text

/-- What is stored has room in the name field and no zero byte in it. -/
structure Fits (stored : List Char) : Prop where
  size : byteCount stored ≤ nameSize
  nonzero : '\x00' ∉ stored

theorem joined_nil (text : List Char) : joined [] text = text := rfl

theorem joined_of_ne {stored : List Char} (h : stored ≠ []) (text : List Char) :
    joined stored text = stored ++ '/' :: text := if_neg h

theorem steps_joined (stored text : List Char) :
    steps (joined stored text) = steps stored ++ steps text := by
  unfold joined
  split_ifs with h
  · rw [h]
    rfl
  · exact steps_append _ _

theorem Fits.nil : Fits [] := ⟨Nat.zero_le _, List.not_mem_nil⟩

/-- Storing a component and going on: it has to fit after the others. -/
theorem putComponent_eq_ok {stored text : List Char} {β : Type}
    {f : List Char → Except (NameFault × List Char) β} {b : β} :
    (if stored.isEmpty then (do let stored ← pure stored; let stored ← put stored text; f stored)
      else (do let stored ← put stored ['/']; let stored ← put stored text; f stored)) = .ok b ↔
    byteCount (joined stored text) ≤ nameSize ∧ '\x00' ∉ text ∧ f (joined stored text) = .ok b := by
  split_ifs with he
  · obtain rfl := List.isEmpty_iff.1 he
    simp [bind_eq_ok, put_eq_ok, joined_nil, byteCount, and_assoc]
  · have hne : stored ≠ [] := mt List.isEmpty_iff.2 he
    simp only [joined_of_ne hne, List.append_cons stored '/' text, byteCount_append]
    constructor
    · intro h
      obtain ⟨_, hslash, h⟩ := bind_eq_ok.1 h
      obtain ⟨_, htext, h⟩ := bind_eq_ok.1 h
      obtain ⟨-, -, rfl⟩ := put_eq_ok.1 hslash
      obtain ⟨hroom, hnul, rfl⟩ := put_eq_ok.1 htext
      exact ⟨byteCount_append _ _ ▸ hroom, hnul, h⟩
    · rintro ⟨hroom, hnul, h⟩
      have hslash := Nat.le_trans (Nat.le_add_right _ _) hroom
      rw [← byteCount_append] at hroom
      exact bind_eq_ok.2 ⟨_, put_eq_ok.2 ⟨hslash, by decide, rfl⟩,
        bind_eq_ok.2 ⟨_, put_eq_ok.2 ⟨hroom, hnul, rfl⟩, h⟩⟩

/-- Storing components one after the other: a dot that means nothing is passed over, the others
have to fit. -/
theorem storeComponents_cons {cut alone : Bool} {stored r : List Char} {c : Component}
    {cs : List Component} : storeComponents cut alone stored (c :: cs) = .ok r ↔
      c ≠ .root ∧ (c = .parent → cut = true ∧ cs = []) ∧
        if c = .current ∧ alone = false then storeComponents cut alone stored cs = .ok r
        else byteCount (joined stored c.text) ≤ nameSize ∧ '\x00' ∉ c.text ∧
          storeComponents cut alone (joined stored c.text) cs = .ok r := by
  have hput := @putComponent_eq_ok stored c.text _ (storeComponents cut alone · cs) r
  conv_lhs => unfold storeComponents
  cases c with
  | root => simp [bind_eq_ok]
  | parent =>
    rcases cut with _ | _
    · simp [bind_eq_ok]
    · rcases cs with _ | _
      · simpa using hput
      · simp [bind_eq_ok]
  | current =>
    rcases alone with _ | _
    · simp
    · simpa using hput
  | normal name => simpa using hput

theorem storeComponents_nil {cut alone : Bool} {stored r : List Char} :
    storeComponents cut alone stored [] = .ok r ↔ stored = r :=
  ⟨fun h => Except.ok.inj h, congrArg _⟩

/-- What every component that is stored preserves, all of them preserve. -/
theorem storeComponents_induction {cut alone : Bool} {P : List Char → Prop} {cs : List Component}
    (hstep : ∀ stored, ∀ c ∈ cs, c ≠ .root → byteCount (joined stored c.text) ≤ nameSize →
      '\x00' ∉ c.text → P stored → P (joined stored c.text)) {stored r : List Char}
    (h : storeComponents cut alone stored cs = .ok r) (h0 : P stored) : P r := by
  induction cs generalizing stored with
  | nil =>
    cases h
    exact h0
  | cons c cs ih =>
    have hrest := fun stored d hd => hstep stored d (List.mem_cons_of_mem c hd)
    obtain ⟨hroot, -, h⟩ := storeComponents_cons.1 h
    split_ifs at h
    · exact ih hrest h h0
    · obtain ⟨hroom, hnul, h⟩ := h
      exact ih hrest h (hstep stored c List.mem_cons_self hroot hroom hnul h0)

/-- The steps of what is stored are those of its components; a dot passed over has none. -/
theorem steps_of_storeComponents {cut alone : Bool} {cs : List Component} {stored r : List Char}
    (h : storeComponents cut alone stored cs = .ok r) :
    steps r = steps stored ++ cs.flatMap fun c => steps c.text := by
  induction cs generalizing stored with
  | nil =>
    cases h
    simp
  | cons c cs ih =>
    obtain ⟨-, -, h⟩ := storeComponents_cons.1 h
    rw [List.flatMap_cons]
    split_ifs at h with hskip
    · rw [ih h, hskip.1]
      rfl
    · rw [ih h.2.2, steps_joined, List.append_assoc]

/-! ### Components -/

theorem text_of_ofPart {atStart : Bool} {p : List Char} {c : Component}
    (h : Component.ofPart atStart p = some c) : c.text = p ∧ p ≠ [] ∧ c ≠ .root := by
  unfold Component.ofPart at h
  split_ifs at h with hempty hdot _ hdots <;> cases h
  · exact ⟨hdot.symm, hempty, nofun⟩
  · exact ⟨hdots.symm, hempty, nofun⟩
  · exact ⟨rfl, hempty, nofun⟩

theorem steps_ofPart (atStart : Bool) (p : List Char) :
    (Component.ofPart atStart p).toList.flatMap (fun c => steps c.text) = steps p := by
  unfold Component.ofPart
  split_ifs with hempty hdot _ hdots
  · rw [hempty]
    rfl
  · rw [hdot]
    rfl
  · rw [hdot]
    rfl
  · rw [hdots]
    rfl
  · simp [Component.text]

theorem components_eq {path p : List Char} {ps : List (List Char)} (h : parts path = p :: ps) :
    components path = (if path.head? = some '/' then [.root]
      else (Component.ofPart true p).toList) ++ ps.filterMap (Component.ofPart false) := by
  unfold components
  rw [h]
  split_ifs <;> rfl

theorem components_of_notMem {cs : List Char} (h : '/' ∉ cs) :
    components cs = (Component.ofPart true cs).toList := by
  rw [components_eq (parts_of_notMem h), if_neg (trim_of_notMem h).1]
  exact List.append_nil _

/-- A component other than the root is a part that is not empty. -/
theorem text_of_mem_components {path : List Char} {c : Component} (h : c ∈ components path)
    (hroot : c ≠ .root) : c.text ≠ [] ∧ '/' ∉ c.text := by
  obtain ⟨p, ps, hp⟩ := List.exists_cons_of_ne_nil (parts_ne_nil path)
  rw [components_eq hp, List.mem_append, List.mem_filterMap] at h
  rcases h with h | ⟨q, hq, h⟩
  · split_ifs at h
    · exact absurd (List.mem_singleton.1 h) hroot
    · obtain ⟨rfl, hne, -⟩ := text_of_ofPart (Option.mem_toList.1 h)
      exact ⟨hne, notMem_of_mem_parts (hp ▸ List.mem_cons_self)⟩
  · obtain ⟨rfl, hne, -⟩ := text_of_ofPart h
    exact ⟨hne, notMem_of_mem_parts (hp ▸ List.mem_cons_of_mem _ hq)⟩

/-- The components of a path have its steps. -/
theorem steps_components (path : List Char) :
    (components path).flatMap (fun c => steps c.text) = steps path := by
  obtain ⟨p, ps, hp⟩ := List.exists_cons_of_ne_nil (parts_ne_nil path)
  have hrest : (ps.filterMap (Component.ofPart false)).flatMap (fun c => steps c.text) =
      ps.flatMap steps := by
    rw [List.filterMap_eq_flatMap_toList, List.flatMap_assoc]
    simp only [steps_ofPart]
  rw [components_eq hp, List.flatMap_append, hrest, ← flatMap_parts path, hp, List.flatMap_cons]
  split_ifs with habs
  · -- before the first slash there is an empty part
    obtain ⟨tail, rfl⟩ := List.head?_eq_some_iff.1 habs
    obtain ⟨rfl, -⟩ := List.cons_eq_cons.1 hp
    rfl
  · rw [steps_ofPart]

/-! ### Stored names -/

theorem joined_fits {stored text : List Char} (hroom : byteCount (joined stored text) ≤ nameSize)
    (hnul : '\x00' ∉ text) (h : Fits stored) : Fits (joined stored text) := by
  refine ⟨hroom, ?_⟩
  unfold joined
  split_ifs
  · exact hnul
  · simp [h.nonzero, hnul]

/-- What is stored are the components, and a slash at the end if the name has one. -/
theorem store_eq_ok {cut : Bool} {path stored : List Char} : store cut path = .ok stored ↔
    ∃ joint, storeComponents cut ((components path).length = 1) [] (components path) = .ok joint ∧
      joint ≠ [] ∧ if path.getLast? = some '/' then put joint ['/'] = .ok stored
        else stored = joint := by
  unfold store
  rw [bind_eq_ok]
  refine exists_congr fun joint => and_congr_right fun _ => ?_
  split_ifs with he <;> rw [List.isEmpty_iff] at he
  · simp [he]
  · simp [he]
  · simp [he]
  · simp [he, eq_comm, pure, Except.pure]

/-- What is stored of a name is not empty, fits its field and has no zero byte. -/
theorem fits_of_store {cut : Bool} {path stored : List Char} (h : store cut path = .ok stored) :
    stored ≠ [] ∧ Fits stored := by
  obtain ⟨joint, hjoint, hne, h⟩ := store_eq_ok.1 h
  have fits : Fits joint := storeComponents_induction
    (fun _ _ _ _ hroom hnul => joined_fits hroom hnul) hjoint Fits.nil
  split_ifs at h
  · obtain ⟨hroom, hnul, rfl⟩ := put_eq_ok.1 h
    refine ⟨List.append_ne_nil_of_left_ne_nil hne _, byteCount_append _ _ ▸ hroom, ?_⟩
    simp [fits.nonzero]
  · rw [h]
    exact ⟨hne, fits⟩

theorem trim_joined {stored text : List Char} (hne : text ≠ []) (hslash : '/' ∉ text)
    (h : Trim stored) : Trim (joined stored text) := by
  unfold joined
  split_ifs with hstored
  · exact trim_of_notMem hslash
  · obtain ⟨c, cs, rfl⟩ := List.exists_cons_of_ne_nil hstored
    refine ⟨h.1, ?_⟩
    rw [List.getLast?_append_of_ne_nil _ (List.cons_ne_nil _ _), List.getLast?_cons_of_ne_nil hne]
    exact (trim_of_notMem hslash).2

/-- **What is stored of a name says the same as the name.** -/
theorem samePath_of_store {path stored : List Char} (h : store false path = .ok stored) :
    SamePath stored path := by
  obtain ⟨joint, hjoint, hne, h⟩ := store_eq_ok.1 h
  have hsteps : steps joint = steps path := by
    rw [steps_of_storeComponents hjoint, steps_components]
    rfl
  have trim : Trim joint := storeComponents_induction (fun _ c hc hroot _ _ =>
    have ⟨htext, hslash⟩ := text_of_mem_components hc hroot
    trim_joined htext hslash) hjoint ⟨nofun, nofun⟩
  have hrelative : path.head? ≠ some '/' := by
    intro habs
    obtain ⟨p, ps, hp⟩ := List.exists_cons_of_ne_nil (parts_ne_nil path)
    rw [components_eq hp, if_pos habs] at hjoint
    exact (storeComponents_cons.1 hjoint).1 rfl
  split_ifs at h with hdir
  · obtain ⟨-, -, rfl⟩ := put_eq_ok.1 h
    refine ⟨?_, iff_of_false ?_ hrelative, iff_of_true ?_ hdir⟩
    · rw [steps_append, hsteps]
      exact List.append_nil _
    · rw [List.head?_append_of_ne_nil _ hne]
      exact trim.1
    · exact List.getLast?_concat ..
  · rw [h]
    exact ⟨hsteps, iff_of_false trim.1 hrelative, iff_of_false trim.2 hdir⟩

/-- A name without slashes is stored as it is, if it fits. -/
theorem store_of_notMem {cut : Bool} {name stored : List Char} (hslash : '/' ∉ name)
    (hempty : name ≠ []) (hdots : name ≠ ['.', '.']) : store cut name = .ok stored ↔
      Fits name ∧ stored = name := by
  have hone : ∃ c, components name = [c] ∧ c ≠ .root ∧ c ≠ .parent ∧ c.text = name := by
    rw [components_of_notMem hslash, Component.ofPart, if_neg hempty, if_neg hdots, if_pos rfl]
    by_cases hdot : name = ['.']
    · exact ⟨.current, by rw [if_pos hdot]; rfl, nofun, nofun, hdot.symm⟩
    · exact ⟨.normal name, by rw [if_neg hdot]; rfl, nofun, nofun, rfl⟩
  obtain ⟨c, hc, hroot, hparent, rfl⟩ := hone
  have hskip : ¬(c = .current ∧ decide ([c].length = 1) = false) := fun h => nomatch h.2
  simp only [store_eq_ok, hc, storeComponents_cons, if_neg hskip, if_neg (trim_of_notMem hslash).2,
    joined_nil, storeComponents_nil]
  constructor
  · rintro ⟨_, ⟨-, -, hroom, hnul, rfl⟩, -, rfl⟩
    exact ⟨⟨hroom, hnul⟩, rfl⟩
  · rintro ⟨fits, rfl⟩
    exact ⟨_, ⟨hroot, fun h => absurd h hparent, fits.size, fits.nonzero, rfl⟩, hempty, rfl⟩

end Isolate.Archive
