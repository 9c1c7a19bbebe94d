/-!
# Reading shell scripts

A script is read the way a POSIX shell reads it, in two steps: quotes take the meaning of characters
away, and blanks and operators without quotes separate words. The reader knows nothing of how scripts
are written here.

* `Shell.items?`: the characters of a script, each quoted or not;
* `Shell.Word`, `Shell.Token`: words and operators;
* `Shell.tokens?`: the tokens of a script in which nothing is expanded.
-/

namespace Isolate.Shell

/-! ### Quotes -/

/-- A part of a script whose quotes are understood. -/
inductive Item where
  | letter (c : Char) (quoted : Bool)
  /-- Here a quotation begins. -/
  | mark
  deriving DecidableEq, Repr

/-- What surrounds the next character. -/
inductive Mode where
  | bare
  /-- After a backslash. -/
  | escaped
  /-- In single quotes. -/
  | single
  /-- In double quotes. -/
  | double
  /-- After a backslash in double quotes. -/
  | doubleEscaped
  deriving DecidableEq, Repr

/-- What a character means in a mode, and the mode of the next one. What would be expanded in double
quotes is refused. A newline after a backslash means nothing. -/
def Mode.step (m : Mode) (c : Char) : Option (Mode × List Item) :=
  match m with
  | .bare =>
    if c = '\'' then some (.single, [.mark])
    else if c = '"' then some (.double, [.mark])
    else if c = '\\' then some (.escaped, [])
    else some (.bare, [.letter c false])
  | .escaped => if c = '\n' then some (.bare, []) else some (.bare, [.letter c true])
  | .single => if c = '\'' then some (.bare, []) else some (.single, [.letter c true])
  | .double =>
    if c = '"' then some (.bare, [])
    else if c = '\\' then some (.doubleEscaped, [])
    else if c = '$' ∨ c = '`' then none
    else some (.double, [.letter c true])
  | .doubleEscaped =>
    if c = '\n' then some (.double, [])
    else if c = '$' ∨ c = '`' ∨ c = '"' ∨ c = '\\' then some (.double, [.letter c true])
    else some (.double, [.letter '\\' true, .letter c true])

/-- The items of a text that begins in a mode; none if a quotation is not closed. -/
def items? : Mode → List Char → Option (List Item)
  | m, [] => if m = .bare then some [] else none
  | m, c :: cs =>
    match m.step c with
    | some (m, is) => (items? m cs).map (is ++ ·)
    | none => none

/-! ### Words and operators -/

/-- A character of a word. -/
structure Letter where
  char : Char
  quoted : Bool
  deriving DecidableEq, Repr

/-- A word. -/
structure Word where
  letters : List Letter
  /-- There is no quoting in it. -/
  bare : Bool
  deriving DecidableEq, Repr

namespace Word

/-- A word that begins. -/
def empty : Word := ⟨[], true⟩

/-- The word with one more character. -/
def add (w : Word) (c : Char) (quoted : Bool) : Word :=
  ⟨w.letters ++ [⟨c, quoted⟩], w.bare && !quoted⟩

/-- The word with a quotation in it, even if nothing is quoted. -/
def opened (w : Word) : Word := { w with bare := false }

/-- What is left when the quotes are removed. -/
def text (w : Word) : String := String.ofList (w.letters.map (·.char))

/-- A word of digits without quotes. -/
def isNumber (w : Word) : Bool :=
  w.bare && !w.letters.isEmpty && w.letters.all (·.char.isDigit)

end Word

/-- The operators of the shell. -/
inductive Operator where
  | newline
  | ampersand
  | bar
  | semicolon
  | leftParenthesis
  | rightParenthesis
  | less
  | greater
  | and
  | or
  | doubleSemicolon
  | document
  | append
  | duplicateInput
  | duplicateOutput
  | readWrite
  | clobber
  deriving DecidableEq, Repr

/-- The operator of one character. -/
def Operator.ofChar? : Char → Option Operator
  | '\n' => some .newline
  | '&' => some .ampersand
  | '|' => some .bar
  | ';' => some .semicolon
  | '(' => some .leftParenthesis
  | ')' => some .rightParenthesis
  | '<' => some .less
  | '>' => some .greater
  | _ => none

/-- The operator with one more character. -/
def Operator.extend? : Operator → Char → Option Operator
  | .ampersand, '&' => some .and
  | .bar, '|' => some .or
  | .semicolon, ';' => some .doubleSemicolon
  | .less, '<' => some .document
  | .less, '&' => some .duplicateInput
  | .less, '>' => some .readWrite
  | .greater, '>' => some .append
  | .greater, '&' => some .duplicateOutput
  | .greater, '|' => some .clobber
  | _, _ => none

/-- The operator redirects a file, whose number may stand right before it. -/
def Operator.redirects : Operator → Bool
  | .less => true
  | .greater => true
  | .append => true
  | .duplicateInput => true
  | .duplicateOutput => true
  | .readWrite => true
  | .clobber => true
  | _ => false

/-- A part of a script. -/
inductive Token where
  | word (w : Word)
  /-- The number of a file right before a redirection. -/
  | descriptor (number : String)
  | operator (op : Operator)
  deriving DecidableEq, Repr

/-- Blanks separate words. -/
def isBlank (c : Char) : Bool := c == ' ' || c == '\t'

/-- Where a word begins that is not bare, or after a colon or an equals sign without quotes, a tilde
is expanded. -/
def expandsTilde (w : Word) : Bool :=
  match w.letters.getLast? with
  | some l => !l.quoted && (l.char == '=' || l.char == ':')
  | none => w.bare

/-- A character without quotes that is expanded at the end of a word, or begins a comment. -/
def isSpecial (w : Word) (c : Char) : Bool :=
  c == '$' || c == '`' || c == '*' || c == '?' || c == '[' || (c == '~' && expandsTilde w) ||
    (c == '#' && w == .empty)

/-- The word at hand as a token, if there is one. -/
def finished (w : Word) : List Token := if w = .empty then [] else [.word w]

/-- The word right before an operator. -/
def finishedBefore (op : Operator) (w : Word) : List Token :=
  if op.redirects && w.isNumber then [.descriptor w.text] else finished w

/-- The longest operator that begins so, and what follows it. -/
def longest (op : Operator) : List Item → Operator × List Item
  | .letter c false :: is =>
    match op.extend? c with
    | some longer => (longer, is)
    | none => (op, .letter c false :: is)
  | is => (op, is)

theorem length_longest_le (op : Operator) (is : List Item) :
    (longest op is).2.length ≤ is.length := by
  unfold longest
  split
  · split <;> simp
  · exact Nat.le_refl _

/-- Groups items into tokens, with the word at hand. None if something is expanded, if there is a
comment, or if a document follows in the script itself. -/
def group (w : Word) : List Item → Option (List Token)
  | [] => some (finished w)
  | .mark :: is => group w.opened is
  | .letter c true :: is => group (w.add c true) is
  | .letter c false :: is =>
    if isBlank c then (group .empty is).map (finished w ++ ·)
    else match Operator.ofChar? c with
      | some op =>
        let found := longest op is
        if found.1 = .document then none
        else (group .empty found.2).map (finishedBefore found.1 w ++ .operator found.1 :: ·)
      | none => if isSpecial w c then none else group (w.add c false) is
termination_by is => is.length
decreasing_by
  · simp
  · simp
  · simp
  · have := length_longest_le op is
    simp only [List.length_cons]
    omega
  · simp

/-- The tokens of a script in which nothing is expanded. -/
def tokens? (script : String) : Option (List Token) :=
  (items? .bare script.toList).bind (group .empty)

end Isolate.Shell
