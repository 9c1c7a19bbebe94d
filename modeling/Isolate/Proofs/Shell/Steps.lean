import Mathlib.Data.List.TakeWhile
import Isolate.Config.Validity
import Isolate.Proofs.Shell.Quoting
import Isolate.Shell.Command

/-!
# What a step runs

The words of a step are read as the name of a command and its arguments, except where a plain word
means something else at the start of a command: a reserved word begins no simple command at all, and
the setting of a variable belongs to the words after it. Neither has a character that is quoted.

* `Sets`, `assignment?_ofArg`: arguments that are read as the setting of a variable;
* `Command.ofArgs`, `form_argTokens`: the command that the arguments of a step form;
* `Script.found`, `commands?_render`: the commands of a rendered script;
* `commands_of_accepted`: when they are the ones that are meant.
-/

namespace Isolate.Shell

/-! ### Settings of variables -/

/-- An argument reads as the setting of a variable, without a character that would be quoted. -/
structure Sets (arg name value : String) : Prop where
  text : arg.toList = name.toList ++ '=' :: value.toList
  begins : ∃ c ∈ name.toList.head?, c.isDigit = false
  identifier : ∀ c ∈ name.toList, Word.isNameChar c = true
  plain : ∀ c ∈ value.toList, isPlain c = true

theorem isPlain_of_isNameChar {c : Char} (h : Word.isNameChar c = true) : isPlain c = true := by
  rcases Bool.or_eq_true_iff.1 h with h | h
  · simp [isPlain, h]
  · simp [isPlain, eq_of_beq h]

theorem ne_of_isNameChar {c : Char} (h : Word.isNameChar c = true) : c ≠ '=' := by
  rintro rfl
  exact absurd h (by decide)

/-- A word whose characters are all quoted, or none of them. -/
def Word.uniform (cs : List Char) (quoted : Bool) : List Letter := cs.map (⟨·, quoted⟩)

theorem isName_uniform {cs : List Char} {quoted : Bool} :
    Word.isName (Word.uniform cs quoted) = true ↔
      quoted = false ∧ (∃ c ∈ cs.head?, c.isDigit = false) ∧
        ∀ c ∈ cs, Word.isNameChar c = true := by
  cases cs with
  | nil => simp [Word.isName, Word.uniform]
  | cons c cs =>
    cases quoted <;> simp [Word.isName, Word.uniform]

/-- Without an equals sign there is no setting. -/
theorem assignment?_of_notMem {w : Word} {cs : List Char} {quoted : Bool}
    (letters : w.letters = Word.uniform cs quoted) (h : '=' ∉ cs) : w.assignment? = none := by
  have hall : ∀ l ∈ w.letters, (l.char != '=') = true := by
    intro l hl
    rw [letters] at hl
    obtain ⟨c, hc, rfl⟩ := List.mem_map.1 hl
    exact bne_iff_ne.2 fun he => h (he ▸ hc)
  rw [Word.assignment?, List.dropWhile_eq_nil_iff.2 hall]

/-- What stands before the first equals sign is a name or not. -/
theorem assignment?_of_split {w : Word} {cs name value : List Char} {quoted : Bool}
    (letters : w.letters = Word.uniform cs quoted) (split : cs = name ++ '=' :: value)
    (first : '=' ∉ name) :
    w.assignment? = if Word.isName (Word.uniform name quoted) && !quoted then
      some (String.ofList name, String.ofList value) else none := by
  have hname : ∀ l ∈ Word.uniform name quoted, (l.char != '=') = true := by
    intro l hl
    obtain ⟨c, hc, rfl⟩ := List.mem_map.1 hl
    exact bne_iff_ne.2 fun he => first (he ▸ hc)
  have hletters : w.letters =
      Word.uniform name quoted ++ ⟨'=', quoted⟩ :: Word.uniform value quoted := by
    rw [letters, split]
    simp [Word.uniform]
  rw [Word.assignment?, hletters, List.takeWhile_append_of_pos hname,
    List.dropWhile_append_of_pos hname]
  simp [Word.uniform, Function.comp_def]

theorem letters_ofArg (arg : String) :
    (Word.ofArg arg).letters = Word.uniform arg.toList (!(Word.ofArg arg).bare) := rfl

theorem bare_ofArg {arg : String} :
    (Word.ofArg arg).bare = true ↔ arg.toList ≠ [] ∧ ∀ c ∈ arg.toList, isPlain c = true := by
  simp [Word.ofArg]

/-- **An argument is read as a setting if it reads as one** and has nothing to be quoted. -/
theorem assignment?_ofArg {arg name value : String} :
    (Word.ofArg arg).assignment? = some (name, value) ↔ Sets arg name value := by
  constructor
  · intro h
    by_cases hmem : '=' ∈ arg.toList
    · obtain ⟨n, v, hsplit, hfirst⟩ := List.eq_append_cons_of_mem hmem
      rw [assignment?_of_split (letters_ofArg arg) hsplit hfirst] at h
      split_ifs at h with hn
      cases h
      obtain ⟨hbare, begins, identifier⟩ := isName_uniform.1 (Bool.and_eq_true_iff.1 hn).1
      have hplain := (bare_ofArg.1 (by simpa using hbare)).2
      refine ⟨by simpa using hsplit, by simpa using begins, by simpa using identifier, ?_⟩
      intro c hc
      refine hplain c ?_
      rw [hsplit]
      simp only [String.toList_ofList] at hc
      simp [hc]
    · rw [assignment?_of_notMem (letters_ofArg arg) hmem] at h
      cases h
  · intro h
    have hfirst : '=' ∉ name.toList := fun hc => ne_of_isNameChar (h.identifier _ hc) rfl
    have hbare : (Word.ofArg arg).bare = true := by
      rw [bare_ofArg, h.text]
      refine ⟨by simp, fun c hc => ?_⟩
      rcases List.mem_append.1 hc with hc | hc
      · exact isPlain_of_isNameChar (h.identifier c hc)
      · rcases List.mem_cons.1 hc with rfl | hc
        · decide
        · exact h.plain c hc
    have hname := isName_uniform.2 ⟨rfl, h.begins, h.identifier⟩
    rw [assignment?_of_split (letters_ofArg arg) h.text hfirst, hbare]
    simpa using hname

/-! ### The command of a step -/

/-- A reserved word that nothing has to be quoted in. -/
def Reserves (arg : String) : Prop := arg ∈ reservedWords ∧ ∀ c ∈ arg.toList, isPlain c = true

theorem isReserved_ofArg {arg : String} : (Word.ofArg arg).isReserved = true ↔ Reserves arg := by
  have hne : arg ∈ reservedWords → arg.toList ≠ [] := by
    intro h he
    obtain rfl : arg = "" := by simpa using he
    exact absurd h (by decide)
  simp only [Word.isReserved, Word.text_ofArg, Bool.and_eq_true, bare_ofArg, Reserves,
    List.contains_iff_mem]
  exact ⟨fun h => ⟨h.2, h.1.2⟩, fun h => ⟨⟨hne h.1, h.2⟩, h.1⟩⟩

/-- The variable and the value that an argument sets, if it is read as a setting. -/
def setting? (arg : String) : Option (String × String) := (Word.ofArg arg).assignment?

/-- The command that arguments form: settings at their beginning, and the words after them. -/
def Command.ofArgs : List String → Command
  | [] => .nothing
  | arg :: args =>
    match setting? arg with
    | some setting =>
      { Command.ofArgs args with assignments := setting :: (Command.ofArgs args).assignments }
    | none => ⟨[], arg :: args, none⟩

theorem input_ofArgs (args : List String) : (Command.ofArgs args).input = none := by
  induction args with
  | nil => rfl
  | cons arg args ih =>
    rw [Command.ofArgs]
    split
    · exact ih
    · rfl

namespace Command

variable {c : Command} {arg : String}

/-- After the name of a command an argument is one of its words. -/
theorem add_argument (h : c.words ≠ []) (arg : String) :
    c.add (.ofArg arg) = { c with words := c.words ++ [arg] } := by
  obtain ⟨w, ws, hw⟩ := List.exists_cons_of_ne_nil h
  simp [Command.add, hw]

theorem add_setting {setting : String × String} (h : c.words = [])
    (hs : setting? arg = some setting) :
    c.add (.ofArg arg) = { c with assignments := c.assignments ++ [setting] } := by
  rw [setting?] at hs
  simp [Command.add, h, hs]

theorem add_name (h : c.words = []) (hs : setting? arg = none) :
    c.add (.ofArg arg) = { c with words := [arg] } := by
  rw [setting?] at hs
  simp [Command.add, h, hs]

end Command

/-- A word that does not stand at the beginning of a step is part of the command at hand. -/
theorem form_word (c : Command) (w : Word) (ts : List Token) :
    form false c (.word w :: ts) = form false (c.add w) ts := by
  simp only [form, Bool.false_and, Bool.false_eq_true, if_false]

theorem argTokens_cons (arg : String) (args : List String) :
    argTokens (arg :: args) = .word (.ofArg arg) :: argTokens args := rfl

/-- After the name of a command all arguments are its words. -/
theorem form_words {c : Command} (h : c.words ≠ []) (args : List String) (rest : List Token) :
    form false c (argTokens args ++ rest) =
      form false { c with words := c.words ++ args } rest := by
  induction args generalizing c with
  | nil => simp [argTokens]
  | cons arg args ih =>
    rw [argTokens_cons, List.cons_append, form_word, Command.add_argument h, ih (by simp)]
    simp

/-- Up to the name of a command settings are taken for themselves. -/
theorem form_argTokens {c : Command} (h : c.words = []) (args : List String) (rest : List Token) :
    form false c (argTokens args ++ rest) = form false
      { c with
        assignments := c.assignments ++ (Command.ofArgs args).assignments
        words := (Command.ofArgs args).words } rest := by
  induction args generalizing c with
  | nil =>
    obtain ⟨assignments, words, input⟩ := c
    obtain rfl : words = [] := h
    simp [argTokens, Command.ofArgs, Command.nothing]
  | cons arg args ih =>
    rw [argTokens_cons, List.cons_append, form_word, Command.ofArgs]
    cases hs : setting? arg with
    | some setting =>
      rw [Command.add_setting h hs,
        ih (c := { c with assignments := c.assignments ++ [setting] }) h]
      simp
    | none =>
      rw [Command.add_name h hs, form_words (c := { c with words := [arg] }) (by simp)]
      simp

/-- **The arguments of a step form a command,** unless the first of them is a reserved word. -/
theorem form_step (arg : String) (args : List String) (rest : List Token) :
    form true .nothing (argTokens (arg :: args) ++ rest) =
      if (Word.ofArg arg).isReserved then none
      else form false (Command.ofArgs (arg :: args)) rest := by
  have hlater : form false (Command.nothing.add (.ofArg arg)) (argTokens args ++ rest) =
      form false (Command.ofArgs (arg :: args)) rest := by
    have hargs := form_argTokens (c := .nothing) rfl (arg :: args) rest
    rw [argTokens_cons, List.cons_append, form_word] at hargs
    rw [hargs]
    -- a command formed from nothing has no input, as the one from its arguments
    have hinput := input_ofArgs (arg :: args)
    cases hc : Command.ofArgs (arg :: args)
    simp_all [Command.nothing]
  rw [argTokens_cons, List.cons_append, form, hlater, Bool.true_and]

theorem form_input {c : Command} (h : c.input = none) (input : Option String) :
    form false c (input.elim [] fun file => [.operator .less, .word (.ofArg file)]) =
      some [{ c with input }] := by
  cases input with
  | none =>
    obtain ⟨assignments, words, _⟩ := c
    cases h
    simp [form]
  | some file => simp [form]

namespace Script

/-- The steps of a script in order, each with the file that its input comes from. -/
def steps (s : Script) : List (List String × Option String) :=
  s.compile.toList.map (·, none) ++ [(s.run, s.input)]

/-- The commands that a script is meant to run: for each step one that has the step's first argument
for its name, the others for its arguments, and no settings. -/
def intended (s : Script) : List Command := s.steps.map fun step => ⟨[], step.1, step.2⟩

/-- A step begins with a reserved word. -/
def reserves (s : Script) : Bool :=
  s.steps.any fun step => step.1.head?.any fun arg => (Word.ofArg arg).isReserved

/-- The commands that the shell finds in a script; none if a step begins with a reserved word. -/
def found (s : Script) : Option (List Command) :=
  if s.reserves then none
  else some (s.steps.map fun step => { Command.ofArgs step.1 with input := step.2 })

end Script

/-- **The commands of a rendered script** whose steps have arguments. -/
theorem commands?_render {s : Script} (nonempty : ∀ step ∈ s.steps, step.1 ≠ []) :
    commands? s.render = s.found := by
  obtain ⟨compile, run, input⟩ := s
  have hrun : run ≠ [] := nonempty (run, input) (by simp [Script.steps])
  obtain ⟨arg, args, rfl⟩ := List.exists_cons_of_ne_nil hrun
  have hstep : form true .nothing (argTokens (arg :: args) ++
      input.elim [] fun file => [.operator .less, .word (.ofArg file)]) =
        if (Word.ofArg arg).isReserved then none
        else some [{ Command.ofArgs (arg :: args) with input }] := by
    rw [form_step, form_input (input_ofArgs _)]
  rw [commands?, tokens?_render, Option.bind_some, Script.tokens, Script.found, Script.reserves,
    Script.steps]
  cases compile with
  | none => simpa using hstep
  | some step =>
    have hcompile : step ≠ [] := nonempty (step, none) (by simp [Script.steps])
    obtain ⟨first, others, rfl⟩ := List.exists_cons_of_ne_nil hcompile
    have hinput : ({ Command.ofArgs (first :: others) with input := none } : Command) =
        Command.ofArgs (first :: others) := by
      rw [← input_ofArgs (first :: others)]
    simp only [Option.elim_some, List.append_assoc, List.cons_append, List.nil_append]
    rw [form_step, form, hstep]
    simp only [Bool.false_eq_true, if_false]
    by_cases hfirst : (Word.ofArg first).isReserved = true
    · simp [hfirst]
    · by_cases harg : (Word.ofArg arg).isReserved = true
      · simp [harg]
      · simp [hfirst, harg, hinput]

/-! ### Scripts that are read as they are meant -/

/-- An argument at the beginning of a step is the name of its command: it is neither a reserved word
nor the setting of a variable. -/
structure Names (arg : String) : Prop where
  unreserved : ¬ Reserves arg
  unset : ∀ name value, ¬ Sets arg name value

theorem names_iff {arg : String} :
    Names arg ↔ (Word.ofArg arg).isReserved = false ∧ setting? arg = none := by
  have hreserved : (Word.ofArg arg).isReserved = false ↔ ¬ Reserves arg := by
    rw [← isReserved_ofArg, Bool.not_eq_true]
  have hsetting : setting? arg = none ↔ ∀ name value, ¬ Sets arg name value := by
    rw [Option.eq_none_iff_forall_not_mem]
    simp [setting?, assignment?_ofArg]
  rw [hreserved, hsetting]
  exact ⟨fun h => ⟨h.unreserved, h.unset⟩, fun h => ⟨h.1, h.2⟩⟩

theorem ofArgs_eq_words {arg : String} {args : List String} {input : Option String} :
    ({ Command.ofArgs (arg :: args) with input } : Command) = ⟨[], arg :: args, input⟩ ↔
      setting? arg = none := by
  rw [Command.ofArgs]
  cases h : setting? arg with
  | none => simp
  | some setting => simp

theorem reserves_eq_false {s : Script} : s.reserves = false ↔
    ∀ step ∈ s.steps, ∀ arg ∈ step.1.head?, (Word.ofArg arg).isReserved = false := by
  have hany : ∀ o : Option String, o.any (fun arg => (Word.ofArg arg).isReserved) = false ↔
      ∀ arg ∈ o, (Word.ofArg arg).isReserved = false := by
    rintro (_ | arg) <;> simp
  simp only [Script.reserves, List.any_eq_false, Bool.not_eq_true, hany]

/-- The commands found are those that are meant if each step begins with the name of a command. -/
theorem found_eq_intended {s : Script} (nonempty : ∀ step ∈ s.steps, step.1 ≠ []) :
    s.found = some s.intended ↔ ∀ step ∈ s.steps, ∀ arg ∈ step.1.head?, Names arg := by
  have hstep : ∀ step ∈ s.steps, ∀ arg ∈ step.1.head?,
      (({ Command.ofArgs step.1 with input := step.2 } : Command) = ⟨[], step.1, step.2⟩ ↔
        setting? arg = none) := by
    rintro ⟨args, input⟩ _ arg harg
    obtain ⟨others, rfl⟩ := List.head?_eq_some_iff.1 harg
    exact ofArgs_eq_words
  unfold Script.found Script.intended
  constructor
  · intro h
    split_ifs at h with hreserves
    have hmap := List.map_inj_left.1 (Option.some.inj h)
    intro step hmem arg harg
    exact names_iff.2 ⟨reserves_eq_false.1 (by simpa using hreserves) step hmem arg harg,
      (hstep step hmem arg harg).1 (hmap step hmem)⟩
  · intro h
    have hreserves : s.reserves = false := reserves_eq_false.2 fun step hmem arg harg =>
      (names_iff.1 (h step hmem arg harg)).1
    rw [hreserves, if_neg Bool.false_ne_true]
    refine congrArg some (List.map_inj_left.2 fun step hmem => ?_)
    obtain ⟨arg, others, hargs⟩ := List.exists_cons_of_ne_nil (nonempty step hmem)
    have harg : arg ∈ step.1.head? := by simp [hargs]
    exact (hstep step hmem arg harg).2 (names_iff.1 (h step hmem arg harg)).2

/-! ### Accepted profiles -/

/-- Each step of an accepted profile has arguments. -/
theorem nonempty_of_accepted {c : Config} {language : String} {p : Profile}
    (accepted : c.firstDefect = none) (known : c.profile? language = some p) (hasInput : Bool) :
    ∀ step ∈ (p.script hasInput).steps, step.1 ≠ [] := by
  obtain ⟨before, after, hsplit, _⟩ := List.lookup_eq_some_iff.1 known
  have hprofile : p.firstDefect = none := by
    unfold Config.firstDefect at accepted
    dsimp only at accepted
    split at accepted
    · cases accepted
    · rename_i hfind
      simpa using List.findSome?_eq_none_iff.1 hfind (language, p) (by simp [hsplit])
  unfold Profile.firstDefect at hprofile
  split_ifs at hprofile with himage hrun hcompile
  intro step hmem
  simp only [Script.steps, Profile.script, List.mem_append, List.mem_map, Option.mem_toList,
    List.mem_singleton] at hmem
  rcases hmem with ⟨args, hargs, rfl⟩ | rfl
  · rintro rfl
    exact hcompile hargs
  · exact hrun

/-- **What the steps of an accepted profile run.** The script of a profile that validation accepts
is read as a list of simple commands, one for each step, unless a step begins with a reserved word;
but arguments at the beginning of a step that read as settings of variables are taken for that. So
each step runs its first argument as the command, with the others for arguments, exactly if that is
neither a plain reserved word nor a plain setting of a variable. What the arguments after it are
makes no difference. -/
theorem commands_of_accepted {c : Config} {language : String} {p : Profile}
    (accepted : c.firstDefect = none) (known : c.profile? language = some p) (hasInput : Bool) :
    commands? (p.script hasInput).render = (p.script hasInput).found ∧
      (commands? (p.script hasInput).render = some (p.script hasInput).intended ↔
        ∀ step ∈ (p.script hasInput).steps, ∀ arg ∈ step.1.head?, Names arg) := by
  have nonempty := nonempty_of_accepted accepted known hasInput
  have hfound := commands?_render nonempty
  exact ⟨hfound, by rw [hfound, found_eq_intended nonempty]⟩

/-- A language whose run step begins with the setting of a variable. -/
def settingFirst : Profile where
  image := "img"
  sourceFile := ⟨"main.x", by decide⟩
  compile := some ["cc", "A=2"]
  run := ["A=1", "env", "if"]
  memory := none
  time := none

/-- A configuration with that language alone. -/
def settingFirstOnly : Config := { languages := [("x", settingFirst)] }

/-- Where the first argument of a step sets a variable the second one is run. -/
theorem commands_of_accepted_settingFirst :
    settingFirstOnly.firstDefect = none ∧ settingFirstOnly.profile? "x" = some settingFirst ∧
      commands? (settingFirst.script true).render =
        some [⟨[], ["cc", "A=2"], none⟩, ⟨[("A", "1")], ["env", "if"], some "input.txt"⟩] ∧
      ¬ ∀ step ∈ (settingFirst.script true).steps, ∀ arg ∈ step.1.head?, Names arg := by
  have accepted : settingFirstOnly.firstDefect = none := by decide +kernel
  have known : settingFirstOnly.profile? "x" = some settingFirst := rfl
  have hfound : (settingFirst.script true).found =
      some [⟨[], ["cc", "A=2"], none⟩, ⟨[("A", "1")], ["env", "if"], some "input.txt"⟩] := by
    decide +kernel
  obtain ⟨hcommands, hintended⟩ := commands_of_accepted accepted known true
  refine ⟨accepted, known, hcommands.trans hfound, fun h => ?_⟩
  have hmeant : (settingFirst.script true).found = some (settingFirst.script true).intended :=
    hcommands.symm.trans (hintended.2 h)
  rw [hfound] at hmeant
  exact absurd hmeant (by decide +kernel)

end Isolate.Shell
