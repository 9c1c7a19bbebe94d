import Mathlib.Tactic
import Isolate.Shell.Script
import Isolate.Shell.Token

/-!
# Scripts are read as they are meant

A shell that reads a rendered script finds the arguments of its steps as words, the operators that
join and redirect the steps, and nothing else: whatever an argument contains stands in quotes,
except for plain characters.

* `read`: a text read on, with the word at hand;
* `Word.ofArg`, `read_quote`: the word that an argument is read as;
* `Script.tokens`, `tokens?_render`: the tokens of a rendered script;
* `Script.lexemes`, `lexemes_render`: what is left of them without the quotes, from which the script
  can be told.
-/

namespace Isolate.Shell

/-! ### Reading on -/

/-- A text read on in some mode, with the word at hand. -/
def read (m : Mode) (w : Word) (cs : List Char) : Option (List Token) :=
  (items? m cs).bind (group w)

variable {m m' : Mode} {w : Word} {c d : Char} {cs rest : List Char} {arg : String}

theorem tokens?_eq_read (script : String) : tokens? script = read .bare .empty script.toList := rfl

theorem read_cons {is : List Item} (h : m.step c = some (m', is)) :
    read m w (c :: cs) = (items? m' cs).bind fun js => group w (is ++ js) := by
  simp only [read, items?, h]
  cases items? m' cs <;> rfl

theorem read_nil (w : Word) : read .bare w [] = some (finished w) := by
  simp [read, items?, group]

/-- A character that only changes the mode. -/
theorem read_silent (h : m.step c = some (m', [])) : read m w (c :: cs) = read m' w cs :=
  read_cons h

/-- A character that begins a quotation. -/
theorem read_mark (h : m.step c = some (m', [.mark])) :
    read m w (c :: cs) = read m' w.opened cs := by
  rw [read_cons h, read]
  congr 1
  funext is
  simp [group]

/-- A character that is taken as it is. -/
theorem read_quoted (h : m.step c = some (m', [.letter d true])) :
    read m w (c :: cs) = read m' (w.add d true) cs := by
  rw [read_cons h, read]
  congr 1
  funext is
  simp [group]

/-- A blank ends the word at hand. -/
theorem read_blank (w : Word) (cs : List Char) :
    read .bare w (' ' :: cs) = (read .bare .empty cs).map (finished w ++ ·) := by
  have h : Mode.bare.step ' ' = some (.bare, [.letter ' ' false]) := by decide
  rw [read_cons h, read]
  cases items? .bare cs with
  | none => rfl
  | some is => simp [group, isBlank]

theorem read_and (cs : List Char) :
    read .bare .empty ('&' :: '&' :: cs) =
      (read .bare .empty cs).map (.operator .and :: ·) := by
  have h : Mode.bare.step '&' = some (.bare, [.letter '&' false]) := by decide
  simp only [read, items?, h]
  cases items? .bare cs with
  | none => rfl
  | some is => simp [group, isBlank, Operator.ofChar?, longest, Operator.extend?, finishedBefore,
      Operator.redirects, finished]

/-- With a blank after it the operator is no longer one. -/
theorem read_less (cs : List Char) :
    read .bare .empty ('<' :: ' ' :: cs) =
      (read .bare .empty cs).map (.operator .less :: ·) := by
  have h : Mode.bare.step '<' = some (.bare, [.letter '<' false]) := by decide
  have hblank : Mode.bare.step ' ' = some (.bare, [.letter ' ' false]) := by decide
  simp only [read, items?, h, hblank]
  cases items? .bare cs with
  | none => rfl
  | some is => simp [group, isBlank, Operator.ofChar?, longest, Operator.extend?, finishedBefore,
      Word.isNumber, Word.empty, finished]

/-! ### Plain characters -/

theorem ne_of_isPlain (h : isPlain c = true) (hd : isPlain d = false) : c ≠ d := by
  rintro rfl
  rw [h] at hd
  cases hd

theorem ofChar?_of_isPlain (h : isPlain c = true) : Operator.ofChar? c = none := by
  unfold Operator.ofChar?
  split
  case h_9 => rfl
  all_goals exact absurd h (by decide)

/-- The shell takes a plain character literally. -/
theorem read_plain (h : isPlain c = true) (w : Word) (cs : List Char) :
    read .bare w (c :: cs) = read .bare (w.add c false) cs := by
  have hstep : Mode.bare.step c = some (.bare, [.letter c false]) := by
    have h₁ : c ≠ '\'' := ne_of_isPlain h (by decide)
    have h₂ : c ≠ '"' := ne_of_isPlain h (by decide)
    have h₃ : c ≠ '\\' := ne_of_isPlain h (by decide)
    simp [Mode.step, h₁, h₂, h₃]
  have hblank : isBlank c = false := by
    have h₁ : c ≠ ' ' := ne_of_isPlain h (by decide)
    have h₂ : c ≠ '\t' := ne_of_isPlain h (by decide)
    simp [isBlank, h₁, h₂]
  have hspecial : isSpecial w c = false := by
    have h₁ : c ≠ '$' := ne_of_isPlain h (by decide)
    have h₂ : c ≠ '`' := ne_of_isPlain h (by decide)
    have h₃ : c ≠ '*' := ne_of_isPlain h (by decide)
    have h₄ : c ≠ '?' := ne_of_isPlain h (by decide)
    have h₅ : c ≠ '[' := ne_of_isPlain h (by decide)
    have h₆ : c ≠ '~' := ne_of_isPlain h (by decide)
    have h₇ : c ≠ '#' := ne_of_isPlain h (by decide)
    simp [isSpecial, h₁, h₂, h₃, h₄, h₅, h₆, h₇]
  rw [read_cons hstep, read]
  congr 1
  funext is
  simp [group, hblank, ofChar?_of_isPlain h, hspecial]

theorem read_allPlain (h : ∀ c ∈ cs, isPlain c = true) (w : Word) (rest : List Char) :
    read .bare w (cs ++ rest) =
      read .bare ⟨w.letters ++ cs.map (⟨·, false⟩), w.bare⟩ rest := by
  induction cs generalizing w with
  | nil => simp
  | cons c cs ih =>
    rw [List.cons_append, read_plain (h c (by simp)), ih fun d hd => h d (by simp [hd])]
    simp [Word.add]

/-! ### Quoted arguments -/

/-- What stands between single quotes is read as the characters that it stands for. -/
theorem read_quoteBody (cs rest : List Char) (hw : w.bare = false) :
    read .single w (quoteBody cs ++ '\'' :: rest) =
      read .bare ⟨w.letters ++ cs.map (⟨·, true⟩), false⟩ rest := by
  induction cs generalizing w with
  | nil =>
    have h : Mode.single.step '\'' = some (.bare, []) := by decide
    rw [quoteBody, List.flatMap_nil, List.nil_append, read_silent h, List.map_nil, List.append_nil,
      ← hw]
  | cons c cs ih =>
    have hbody : quoteBody (c :: cs) = (if c = '\'' then escapedQuote else [c]) ++ quoteBody cs :=
      List.flatMap_cons
    rw [hbody, List.append_assoc]
    by_cases hc : c = '\''
    -- the quotation is closed, a quote follows without quotes around it, and another one begins
    · subst hc
      have hclose : Mode.single.step '\'' = some (.bare, []) := by decide
      have hescape : Mode.bare.step '\\' = some (.escaped, []) := by decide
      have hletter : Mode.escaped.step '\'' = some (.bare, [.letter '\'' true]) := by decide
      have hopen : Mode.bare.step '\'' = some (.single, [.mark]) := by decide
      simp only [if_true, escapedQuote, List.cons_append, List.nil_append]
      rw [read_silent hclose, read_silent hescape, read_quoted hletter, read_mark hopen, ih rfl]
      simp [Word.add, Word.opened]
    · have hletter : Mode.single.step c = some (.single, [.letter c true]) := by
        simp [Mode.step, hc]
      rw [if_neg hc, List.cons_append, List.nil_append, read_quoted hletter,
        ih (by simp [Word.add])]
      simp [Word.add]

namespace Word

/-- The word for an argument: without any quotes if all of its characters are plain, else with all
of them quoted. -/
def ofArg (arg : String) : Word :=
  let bare := !arg.toList.isEmpty && arg.toList.all isPlain
  ⟨arg.toList.map (⟨·, !bare⟩), bare⟩

@[simp] theorem text_ofArg (arg : String) : (ofArg arg).text = arg := by
  simp [ofArg, text, Function.comp_def]

theorem ofArg_ne_empty (arg : String) : ofArg arg ≠ .empty := by
  intro h
  have hletters : arg.toList = [] := by simpa [ofArg, empty] using congrArg letters h
  have hbare : (ofArg arg).bare = true := by rw [h]; rfl
  simp [ofArg, hletters] at hbare

/-- Only plain characters stand without quotes. -/
theorem quoted_or_isPlain {l : Letter} (h : l ∈ (ofArg arg).letters) :
    l.quoted = true ∨ isPlain l.char = true := by
  obtain ⟨c, hc, rfl⟩ := List.mem_map.1 h
  by_cases hp : isPlain c = true
  · exact Or.inr hp
  · have hall : arg.toList.all isPlain = false :=
      List.all_eq_false.2 ⟨c, hc, by simpa using hp⟩
    left
    simp [hall]

end Word

/-- **A quoted argument is read as one word for the argument.** -/
theorem read_quote (arg : String) (rest : List Char) :
    read .bare .empty ((quote arg).toList ++ rest) = read .bare (.ofArg arg) rest := by
  unfold quote Word.ofArg
  by_cases h : (!arg.toList.isEmpty && arg.toList.all isPlain) = true
  · have hplain : ∀ c ∈ arg.toList, isPlain c = true :=
      List.all_eq_true.1 (Bool.and_eq_true_iff.1 h).2
    simp only [h, if_true]
    rw [read_allPlain hplain]
    rfl
  · have hopen : Mode.bare.step '\'' = some (.single, [.mark]) := by decide
    simp only [h, Bool.false_eq_true, if_false, String.toList_ofList, List.cons_append,
      List.append_assoc, List.nil_append]
    rw [read_mark hopen, read_quoteBody _ _ rfl]
    rfl

/-! ### Steps -/

/-- Whatever word is at hand ends where the text goes on. -/
def Separated (rest : List Char) : Prop :=
  ∀ w, read .bare w rest = (read .bare .empty rest).map (finished w ++ ·)

theorem separated_nil : Separated [] := by
  intro w
  simp [read_nil, finished]

theorem separated_blank (cs : List Char) : Separated (' ' :: cs) := by
  intro w
  rw [read_blank, read_blank .empty]
  cases read .bare .empty cs <;> rfl

/-- The tokens of arguments. -/
def argTokens (args : List String) : List Token := args.map fun arg => .word (.ofArg arg)

theorem finished_ofArg (arg : String) : finished (.ofArg arg) = [.word (.ofArg arg)] :=
  if_neg (Word.ofArg_ne_empty arg)

theorem toList_words_cons (a b : String) (args : List String) :
    (words (a :: b :: args)).toList = (quote a).toList ++ ' ' :: (words (b :: args)).toList := by
  simp [words, String.toList_intercalate]

/-- **The arguments of a step are read as words.** -/
theorem read_words (args : List String) (h : Separated rest) :
    read .bare .empty ((words args).toList ++ rest) =
      (read .bare .empty rest).map (argTokens args ++ ·) := by
  induction args with
  | nil => simp [words, argTokens]
  | cons a args ih =>
    cases args with
    | nil =>
      have hone : words [a] = quote a := by simp [words]
      rw [hone, read_quote, h, finished_ofArg]
      rfl
    | cons b args =>
      rw [toList_words_cons, List.append_assoc, List.cons_append, read_quote, read_blank, ih,
        finished_ofArg, Option.map_map]
      rfl

namespace Script

/-- The tokens that a script is meant to have. -/
def tokens (s : Script) : List Token :=
  (s.compile.elim [] fun args => argTokens args ++ [.operator .and]) ++ (argTokens s.run ++
    s.input.elim [] fun file => [.operator .less, .word (.ofArg file)])

end Script

theorem read_input (input : Option String) :
    Separated (input.elim [] fun file => ' ' :: '<' :: ' ' :: (quote file).toList) ∧
      read .bare .empty (input.elim [] fun file => ' ' :: '<' :: ' ' :: (quote file).toList) =
        some (input.elim [] fun file => [.operator .less, .word (.ofArg file)]) := by
  cases input with
  | none => exact ⟨separated_nil, read_nil .empty⟩
  | some file =>
    have hfile : read .bare .empty (quote file).toList = some [.word (.ofArg file)] := by
      rw [← List.append_nil (quote file).toList, read_quote, read_nil, finished_ofArg]
    refine ⟨separated_blank _, ?_⟩
    simp only [Option.elim_some]
    rw [read_blank, read_less, hfile]
    rfl

theorem toList_render (s : Script) : s.render.toList =
    (s.compile.elim [] fun args => (words args).toList ++ [' ', '&', '&', ' ']) ++
      ((words s.run).toList ++
        s.input.elim [] fun file => ' ' :: '<' :: ' ' :: (quote file).toList) := by
  obtain ⟨compile, run, input⟩ := s
  cases compile <;> cases input <;> simp [Script.render]

/-- **A rendered script is read as its tokens.** -/
theorem tokens?_render (s : Script) : tokens? s.render = some s.tokens := by
  obtain ⟨hseparated, hinput⟩ := read_input s.input
  have hrun : read .bare .empty ((words s.run).toList ++
      s.input.elim [] fun file => ' ' :: '<' :: ' ' :: (quote file).toList) =
        some (argTokens s.run ++
          s.input.elim [] fun file => [.operator .less, .word (.ofArg file)]) := by
    rw [read_words _ hseparated, hinput]
    rfl
  rw [tokens?_eq_read, toList_render, Script.tokens]
  cases s.compile with
  | none => exact hrun
  | some args =>
    simp only [Option.elim_some, List.append_assoc, List.cons_append, List.nil_append]
    rw [read_words _ (separated_blank _), read_blank, read_and, read_blank, hrun]
    rfl

/-! ### Without the quotes -/

/-- What a token says. -/
inductive Lexeme where
  | word (text : String)
  | descriptor (number : String)
  | operator (op : Operator)
  deriving DecidableEq, Repr

/-- A token without its quotes. -/
def Token.lexeme : Token → Lexeme
  | .word w => .word w.text
  | .descriptor number => .descriptor number
  | .operator op => .operator op

namespace Script

/-- What the run step of a script says: its words and the file that its input is redirected from. -/
def runLexemes (s : Script) : List Lexeme :=
  s.run.map .word ++ s.input.elim [] fun file => [.operator .less, .word file]

/-- What a script says: the words of the compile step, if there is one, joined to the run step. -/
def lexemes (s : Script) : List Lexeme :=
  match s.compile with
  | some args => args.map .word ++ .operator .and :: s.runLexemes
  | none => s.runLexemes

end Script

theorem lexeme_argTokens (args : List String) :
    (argTokens args).map Token.lexeme = args.map .word := by
  simp [argTokens, Token.lexeme, Function.comp_def]

theorem lexeme_tokens (s : Script) : s.tokens.map Token.lexeme = s.lexemes := by
  obtain ⟨compile, run, input⟩ := s
  cases compile <;> cases input <;>
    simp [Script.tokens, Script.lexemes, Script.runLexemes, lexeme_argTokens, Token.lexeme]

/-- In the tokens of a script only plain characters stand without quotes. -/
theorem quoted_or_isPlain_of_mem {s : Script} {w : Word} (h : Token.word w ∈ s.tokens) {l : Letter}
    (hl : l ∈ w.letters) : l.quoted = true ∨ isPlain l.char = true := by
  obtain ⟨arg, rfl⟩ : ∃ arg, w = .ofArg arg := by
    have hargs : ∀ args, Token.word w ∈ argTokens args → ∃ arg, w = .ofArg arg := by
      intro args hw
      obtain ⟨arg, _, he⟩ := List.mem_map.1 hw
      exact ⟨arg, (Token.word.inj he).symm⟩
    obtain ⟨compile, run, input⟩ := s
    cases compile <;> cases input <;> simp [Script.tokens] at h <;> grind
  exact Word.quoted_or_isPlain hl

theorem operator_notMem (op : Operator) (args : List String) :
    Lexeme.operator op ∉ args.map Lexeme.word := by
  simp

theorem and_notMem_runLexemes (s : Script) : Lexeme.operator .and ∉ s.runLexemes := by
  cases h : s.input <;> simp [Script.runLexemes, h]

theorem word_inj {args args' : List String} (h : args.map Lexeme.word = args'.map Lexeme.word) :
    args = args' :=
  Function.Injective.list_map (fun _ _ => Lexeme.word.inj) h

/-- A run step can be told from what it says. -/
theorem runLexemes_inj {s s' : Script} (h : s.runLexemes = s'.runLexemes) :
    s.run = s'.run ∧ s.input = s'.input := by
  unfold Script.runLexemes at h
  cases hi : s.input with
  | none =>
    cases hi' : s'.input with
    | none =>
      rw [hi, hi', Option.elim_none, List.append_nil, List.append_nil] at h
      exact ⟨word_inj h, rfl⟩
    | some file' =>
      rw [hi, hi', Option.elim_none, List.append_nil] at h
      exact absurd (by rw [h]; simp) (operator_notMem .less s.run)
  | some file =>
    cases hi' : s'.input with
    | none =>
      rw [hi, hi', Option.elim_none, List.append_nil] at h
      exact absurd (by rw [← h]; simp) (operator_notMem .less s'.run)
    | some file' =>
      rw [hi, hi'] at h
      obtain ⟨hrun, _, hfile⟩ :=
        (List.append_cons_inj_of_notMem (operator_notMem .less s.run) (by simp)).1 h
      exact ⟨word_inj hrun, congrArg some (Lexeme.word.inj (List.cons.inj hfile).1)⟩

/-- A script can be told from what it says. -/
theorem lexemes_injective : Function.Injective Script.lexemes := by
  rintro ⟨compile, run, input⟩ ⟨compile', run', input'⟩ h
  have hsteps : compile = compile' ∧
      Script.runLexemes ⟨compile, run, input⟩ = Script.runLexemes ⟨compile', run', input'⟩ := by
    cases compile with
    | none =>
      cases compile' with
      | none => exact ⟨rfl, h⟩
      | some args' =>
        have hmem : .operator .and ∈ Script.lexemes ⟨none, run, input⟩ := by
          rw [h]
          simp [Script.lexemes]
        exact absurd hmem (and_notMem_runLexemes _)
    | some args =>
      cases compile' with
      | none =>
        have hmem : .operator .and ∈ Script.lexemes ⟨none, run', input'⟩ := by
          rw [← h]
          simp [Script.lexemes]
        exact absurd hmem (and_notMem_runLexemes _)
      | some args' =>
        obtain ⟨hargs, _, hrun⟩ := (List.append_cons_inj_of_notMem (operator_notMem .and args)
          (and_notMem_runLexemes _)).1 h
        exact ⟨congrArg some (word_inj hargs), hrun⟩
  obtain ⟨rfl, hsteps⟩ := hsteps
  obtain ⟨hrun, hinput⟩ := runLexemes_inj hsteps
  cases hrun
  cases hinput
  rfl

/-- **A rendered script is read back.** The shell finds the words of the compile step and the
operator that joins the steps, if there is a compile step, then the words of the run step, and the
redirection from the input file, if there is one; nothing in the words is expanded, for only plain
characters stand in them without quotes. No other script is rendered the same. -/
theorem lexemes_render (s : Script) :
    (∃ ts, tokens? s.render = some ts ∧ ts.map Token.lexeme = s.lexemes ∧
      ∀ w, Token.word w ∈ ts → ∀ l ∈ w.letters, l.quoted = true ∨ isPlain l.char = true) ∧
    ∀ s' : Script, s'.render = s.render → s' = s := by
  refine ⟨⟨s.tokens, tokens?_render s, lexeme_tokens s,
    fun w hw l hl => quoted_or_isPlain_of_mem hw hl⟩, fun s' h => lexemes_injective ?_⟩
  have htokens : s'.tokens = s.tokens := by
    have := tokens?_render s'
    rw [h, tokens?_render s] at this
    exact (Option.some.inj this).symm
  rw [← lexeme_tokens, ← lexeme_tokens, htokens]

end Isolate.Shell
