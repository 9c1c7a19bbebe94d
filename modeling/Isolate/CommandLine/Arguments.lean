import Isolate.Number.Decimal

/-!
# Arguments of the command line

A command line names one command. Options stand before or after the name of the command, and some of
them before it as well.

* `Command`, `Invocation`: what the user asks for;
* `Level`: the options and words that are understood before and after the name of a command;
* `Level.scan`: reads the arguments of a level from left to right;
* `Invocation.ofArguments`: the invocation of a list of arguments, or why there is none.
-/

namespace Isolate.CommandLine

/-- What a user can ask for. -/
inductive Command where
  /-- Writes a configuration to start from. -/
  | init (output : String) (force : Bool)
  /-- Runs a file once. -/
  | run (source language : String) (input : Option String) (time : Option Binary64)
      (memory : Option UInt64) (json : Bool)
  /-- Runs a file again and again. -/
  | bench (source language : String) (count concurrency : Nat)
  | languages
  | showConfig

/-- A command, and the configuration to be used for it. -/
structure Invocation where
  config : Option String
  verbose : Bool
  command : Command

/-- Why arguments give no invocation. -/
inductive Stop where
  /-- The user asks how the program is used. -/
  | help
  | version
  /-- The arguments do not fit. -/
  | misuse
  deriving DecidableEq, Repr

/-- What an option is followed by. -/
inductive Operand where
  | nothing
  /-- A value that passes a test. -/
  | value (fits : String → Bool)
  /-- The option ends everything. -/
  | stop (reason : Stop)

/-- An option with its long name and perhaps a letter. -/
structure Flag where
  name : String
  letter : Option Char
  operand : Operand

/-- The options and words that are understood in one part of a command line. -/
structure Level where
  flags : List Flag
  /-- A file can be named. -/
  takesFile : Bool

/-- What was found in one part of a command line: the options with their values, and a file. -/
structure Found where
  options : List (String × String)
  file : Option String

namespace Found

/-- Nothing. -/
def nothing : Found := ⟨[], none⟩

/-- The value of an option. -/
def get? (f : Found) (name : String) : Option String := f.options.lookup name

/-- The option was given. -/
def has (f : Found) (name : String) : Bool := (f.get? name).isSome

/-- Notes an option, which must not be given twice. -/
def note (f : Found) (name value : String) : Except Stop Found :=
  if f.has name then .error .misuse else .ok { f with options := (name, value) :: f.options }

end Found

/-- Notes a value if it fits. -/
def Flag.give (flag : Flag) (found : Found) (value : String) : Except Stop Found :=
  match flag.operand with
  | .value fits => if fits value then found.note flag.name value else .error .misuse
  | .nothing => .error .misuse
  | .stop _ => .error .misuse

/-- How an argument looks. -/
inductive Shape where
  /-- Two dashes: no options follow. -/
  | terminator
  /-- A long option, with what follows its equals sign. -/
  | long (name : String) (value : Option String)
  /-- One or more letters after a dash. -/
  | letters (cs : List Char)
  | word
  deriving DecidableEq, Repr

/-- The shape of an argument. A dash alone is a word. -/
def Shape.of (argument : String) : Shape :=
  match argument.toList with
  | ['-', '-'] => .terminator
  | '-' :: '-' :: cs =>
    .long (String.ofList (cs.takeWhile (· != '='))) (match cs.dropWhile (· != '=') with
      | _ :: value => some (String.ofList value)
      | [] => none)
  | '-' :: c :: cs => .letters (c :: cs)
  | _ => .word

/-- Drops the equals sign between a letter and its value. -/
def withoutEquals : List Char → List Char
  | '=' :: cs => cs
  | cs => cs

/-- What was found after an option without a value; with a value missing, its flag. -/
abbrev Scanned := Found × Option Flag

namespace Level

/-- Reads a long option. -/
def long (level : Level) (found : Found) (name : String) (value : Option String) :
    Except Stop Scanned :=
  match level.flags.find? (·.name == name) with
  | none => .error .misuse
  | some flag =>
    match flag.operand, value with
    | .value _, none => .ok (found, some flag)
    | .nothing, none => (found.note name "").map (·, none)
    | .stop reason, none => .error reason
    | _, some value => (flag.give found value).map (·, none)

/-- Reads letters. What follows a letter that takes a value is that value. -/
def letters (level : Level) : Found → List Char → Except Stop Scanned
  | found, [] => .ok (found, none)
  | found, c :: cs =>
    match level.flags.find? (·.letter == some c) with
    | none => .error .misuse
    | some flag =>
      match flag.operand with
      | .stop reason => .error reason
      | .nothing =>
        match found.note flag.name "" with
        | .ok found => letters level found cs
        | .error e => .error e
      | .value _ =>
        match cs with
        | [] => .ok (found, some flag)
        | _ => (flag.give found (String.ofList (withoutEquals cs))).map (·, none)

/-- Notes a word as the file. -/
def word (level : Level) (found : Found) (argument : String) : Except Stop Found :=
  if level.takesFile && found.file.isNone && argument != "" then
    .ok { found with file := some argument }
  else .error .misuse

/-- Notes all words after the terminator. -/
def words (level : Level) : Found → List String → Except Stop Found
  | found, [] => .ok found
  | found, w :: ws =>
    match level.word found w with
    | .ok found => words level found ws
    | .error e => .error e

mutual

/-- Reads arguments up to the first word, if `upToWord`, else all of them. The result holds the
arguments that were not read. -/
def scan (level : Level) (upToWord : Bool) : Found → List String → Except Stop (Found × List String)
  | found, [] => .ok (found, [])
  | found, argument :: rest =>
    match Shape.of argument with
    | .terminator =>
      if upToWord then .error .misuse else (level.words found rest).map (·, [])
    | .word =>
      if upToWord then .ok (found, argument :: rest)
      else
        match level.word found argument with
        | .ok found => scan level upToWord found rest
        | .error e => .error e
    | .long name value =>
      match level.long found name value with
      | .ok (found, pending) => proceed level upToWord found pending rest
      | .error e => .error e
    | .letters cs =>
      match level.letters found cs with
      | .ok (found, pending) => proceed level upToWord found pending rest
      | .error e => .error e

/-- Reads on after an option whose value may still be missing. A value cannot look like an
option. -/
def proceed (level : Level) (upToWord : Bool) (found : Found) :
    Option Flag → List String → Except Stop (Found × List String)
  | none, rest => scan level upToWord found rest
  | some _, [] => .error .misuse
  | some flag, value :: rest =>
    if Shape.of value = .word then
      match flag.give found value with
      | .ok found => scan level upToWord found rest
      | .error e => .error e
    else .error .misuse

end

end Level

/-! ### The options of this program -/

/-- An option whose value is the path of a file. -/
def pathFlag (name : String) (letter : Char) : Flag := ⟨name, some letter, .value (· != "")⟩

/-- An option whose value is any text. -/
def textFlag (name : String) (letter : Char) : Flag := ⟨name, some letter, .value fun _ => true⟩

/-- An option whose value is a count. -/
def countFlag (name : String) (letter : Char) : Flag :=
  ⟨name, some letter, .value fun value => (Numeral.readUInt64 value.toList).isSome⟩

/-- An option whose value is a number of seconds. -/
def secondsFlag (name : String) (letter : Char) : Flag :=
  ⟨name, some letter, .value fun value => (Numeral.readFloat value.toList).isSome⟩

/-- The options that are understood everywhere. -/
def sharedFlags : List Flag :=
  [pathFlag "config" 'c', ⟨"verbose", some 'v', .nothing⟩, ⟨"help", some 'h', .stop .help⟩]

/-- What is understood before the name of a command. -/
def topLevel : Level := ⟨⟨"version", some 'V', .stop .version⟩ :: sharedFlags, false⟩

/-- What is understood after the name of a command, if there is such a command. -/
def levelOf? : String → Option Level
  | "init" => some ⟨sharedFlags ++ [pathFlag "output" 'o', ⟨"force", some 'f', .nothing⟩], false⟩
  | "run" => some ⟨sharedFlags ++ [textFlag "language" 'l', pathFlag "input" 'i',
      secondsFlag "time-limit" 't', countFlag "memory-limit" 'm', ⟨"json", none, .nothing⟩], true⟩
  | "bench" => some ⟨sharedFlags ++ [textFlag "language" 'l', countFlag "count" 'n',
      countFlag "concurrency" 'j'], true⟩
  | "languages" => some ⟨sharedFlags, false⟩
  | "show-config" => some ⟨sharedFlags, false⟩
  | _ => none

/-- The value of a count. -/
def Found.count? (f : Found) (name : String) : Option UInt64 :=
  (f.get? name).bind fun value => Numeral.readUInt64 value.toList

/-- The command of a name and of what was found after it; none if something is missing. -/
def commandOf? (name : String) (f : Found) : Option Command :=
  match name with
  | "init" => some (.init ((f.get? "output").getD "runbox.toml") (f.has "force"))
  | "run" => do
    some (.run (← f.file) (← f.get? "language") (f.get? "input")
      ((f.get? "time-limit").bind fun value => Numeral.readFloat value.toList)
      (f.count? "memory-limit") (f.has "json"))
  | "bench" => do
    some (.bench (← f.file) (← f.get? "language") (((f.count? "count").map (·.toNat)).getD 10)
      (((f.count? "concurrency").map (·.toNat)).getD 3))
  | "languages" => some .languages
  | "show-config" => some .showConfig
  | _ => none

/-- Why `help` with further words gives no invocation. -/
def helpOn : List String → Stop
  | [] => .help
  | [name] => if name = "help" || (levelOf? name).isSome then .help else .misuse
  | _ => .misuse

/-- The invocation of a list of arguments. An option given before and after the name of the command
has its later value. -/
def Invocation.ofArguments (arguments : List String) : Except Stop Invocation := do
  let (before, rest) ← topLevel.scan true .nothing arguments
  match rest with
  | [] => .error .misuse
  | "help" :: rest => .error (helpOn rest)
  | name :: rest =>
    match levelOf? name with
    | none => .error .misuse
    | some level =>
      let (after, _) ← level.scan false .nothing rest
      match commandOf? name after with
      | some command =>
        .ok ⟨(after.get? "config").or (before.get? "config"),
          after.has "verbose" || before.has "verbose", command⟩
      | none => .error .misuse

end Isolate.CommandLine
