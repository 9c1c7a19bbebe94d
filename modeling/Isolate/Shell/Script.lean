/-!
# Shell scripts for a submission

The steps of a submission run through the shell of its container:

* `Shell.quote`: a word that the shell reads as the given argument;
* `Shell.Script`: an optional compile step, a run step and an optional file to read input from;
* `Shell.Script.render`: the script's text;
* `Shell.Script.argv`: the command that runs it.
-/

namespace Isolate.Shell

/-- A character that the shell takes literally in any word. -/
def isPlain (c : Char) : Bool :=
  c.isAlphanum || "_-./=:,+@%".toList.contains c

/-- Closes the quotes, writes a quote and opens the quotes again. -/
def escapedQuote : List Char := ['\'', '\\', '\'', '\'']

/-- The text between single quotes that stands for the given characters. -/
def quoteBody (cs : List Char) : List Char :=
  cs.flatMap fun c => if c = '\'' then escapedQuote else [c]

/-- A word of the shell for an argument: bare if all of its characters are plain, else in single
quotes. -/
def quote (arg : String) : String :=
  let cs := arg.toList
  if !cs.isEmpty && cs.all isPlain then arg
  else String.ofList ('\'' :: (quoteBody cs ++ ['\'']))

/-- The steps of a submission. -/
structure Script where
  compile : Option (List String)
  run : List String
  /-- The file that the run step reads its standard input from. -/
  input : Option String
  deriving DecidableEq, Repr

/-- Arguments as words with blanks between them. -/
def words (args : List String) : String := " ".intercalate (args.map quote)

/-- The text of a script: the steps joined so that the second runs only after the first succeeded,
and the input redirected for the run step. -/
def Script.render (s : Script) : String :=
  let compile := match s.compile with
    | some args => words args ++ " && "
    | none => ""
  let input := match s.input with
    | some file => " < " ++ quote file
    | none => ""
  compile ++ words s.run ++ input

/-- The command that runs a script. -/
def Script.argv (s : Script) : List String := ["/bin/sh", "-c", s.render]

end Isolate.Shell
