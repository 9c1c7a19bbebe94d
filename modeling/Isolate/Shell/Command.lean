import Isolate.Shell.Token

/-!
# Shell commands

The commands of a script of one line, the way the POSIX grammar forms them from tokens:

* `Shell.Command`: assignments, a name with arguments, and redirected input;
* `Shell.Word.isReserved`, `Shell.Word.assignment?`: words that are no plain words at the start of a
  command;
* `Shell.commands?`: the commands that a script joins by `&&`.
-/

namespace Isolate.Shell

/-- A simple command. -/
structure Command where
  /-- The variables that are set for it. -/
  assignments : List (String × String)
  /-- Its name and its arguments. -/
  words : List String
  /-- The file that its standard input comes from. -/
  input : Option String
  deriving DecidableEq, Repr

namespace Command

/-- A command that has nothing yet. -/
def nothing : Command := ⟨[], [], none⟩

end Command

/-- The words that mean something of their own at the start of a command. -/
def reservedWords : List String :=
  ["!", "\x7b", "\x7d", "case", "do", "done", "elif", "else", "esac", "fi", "for", "if", "in", "then",
    "until", "while"]

namespace Word

/-- A reserved word, which has no quotes in it. -/
def isReserved (w : Word) : Bool := w.bare && reservedWords.contains w.text

/-- A character of a variable's name. -/
def isNameChar (c : Char) : Bool := c.isAlphanum || c == '_'

/-- The name of a variable, without quotes. -/
def isName : List Letter → Bool
  | [] => false
  | l :: ls => !l.char.isDigit && (l :: ls).all fun l => !l.quoted && isNameChar l.char

/-- The variable and the value of an assignment. -/
def assignment? (w : Word) : Option (String × String) :=
  let name := w.letters.takeWhile (·.char != '=')
  match w.letters.dropWhile (·.char != '=') with
  | equals :: value =>
    if isName name && !equals.quoted then
      some (String.ofList (name.map (·.char)), String.ofList (value.map (·.char)))
    else none
  | [] => none

end Word

namespace Command

/-- The command with one more word at its end. Assignments stand before the name. -/
def add (c : Command) (w : Word) : Command :=
  match c.words, w.assignment? with
  | [], some assignment => { c with assignments := c.assignments ++ [assignment] }
  | _, _ => { c with words := c.words ++ [w.text] }

end Command

/-- Forms commands from tokens, with the command at hand; `atStart` if it has no token yet. None if
the tokens are no list of simple commands joined by `&&`, with input redirected at most. -/
def form : Bool → Command → List Token → Option (List Command)
  | atStart, c, [] => if atStart then none else some [c]
  | atStart, c, .operator .and :: ts =>
    if atStart then none else (form true .nothing ts).map (c :: ·)
  | _, c, .operator .less :: .word w :: ts => form false { c with input := some w.text } ts
  | atStart, c, .word w :: ts =>
    if atStart && w.isReserved then none else form false (c.add w) ts
  | _, _, _ => none

/-- The commands that a script joins by `&&`. -/
def commands? (script : String) : Option (List Command) :=
  (tokens? script).bind (form true .nothing)

end Isolate.Shell
