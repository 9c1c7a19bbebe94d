import Isolate.Config.Basic
import Isolate.Config.KeyPath
import Isolate.Text.Quoted

/-!
# From trees to configurations

Every setting is converted from the value found for it, with much good will: numbers may be strings
or truth values, and strings may be numbers.

* `Config.ConversionError`: what was found where something else was wanted, with its place;
* `Conversion.count`, `Conversion.seconds`, `Conversion.text`: the conversions of single values;
* `Config.ofData`: the configuration of a tree.
-/

namespace Isolate

/-- A place in a tree. -/
abbrev Place := List KeyPath.Step

/-- The text of a place: names with dots before all but the first, and indexes in brackets. -/
def Place.text (place : Place) : String :=
  let parts := place.map fun
    | .key name => "." ++ name
    | .index i => "[" ++ toString i ++ "]"
  let joined := String.join parts
  match place with
  | .key _ :: _ => String.ofList (joined.toList.drop 1)
  | _ => joined

/-- What kind of value was wanted. -/
inductive Wanted where
  | integer
  | float
  | string
  | sequence
  | table
  | poolSettings
  | profile
  deriving DecidableEq, Repr

/-- The wording of what was wanted. -/
def Wanted.message : Wanted → String
  | .integer => "an integer"
  | .float => "a floating point"
  | .string => "a string"
  | .sequence => "a sequence"
  | .table => "a map"
  | .poolSettings => "struct PoolConfig"
  | .profile => "struct LanguageProfile"

/-- The wording of what was found. -/
def Data.found : Data → String
  | .null => "unit value"
  | .bool b => "boolean `" ++ (if b then "true" else "false") ++ "`"
  | .int n => "integer `" ++ toString n ++ "`"
  | .float x => "floating point `" ++ x.text .marked ++ "`"
  | .text s => "string " ++ shownString s
  | .list _ => "sequence"
  | .table _ => "map"

/-- Why a tree is no configuration. -/
inductive Config.ConversionError where
  | kind (found : Data) (wanted : Wanted) (place : Place)
  | negative (found : Int) (place : Place)
  | missing (place : Place)
  | tooShort (length : Nat) (place : Place)
  | fileName (name : String) (place : Place)

/-- The wording of a conversion error. -/
def Config.ConversionError.message : Config.ConversionError → String
  | .kind found wanted place =>
    "invalid type: " ++ found.found ++ ", expected " ++ wanted.message ++ " for key `" ++
      place.text ++ "`"
  | .negative n place =>
    "invalid type: 64-bit integer `" ++ toString n ++
      "`, expected an unsigned 64 bit or less integer for key `" ++ place.text ++ "`"
  | .missing place => "missing configuration field \"" ++ place.text ++ "\""
  | .tooShort length place =>
    "invalid length " ++ toString length ++
      ", expected struct LanguageProfile with 6 elements for key `" ++ place.text ++ "`"
  | .fileName name place =>
    "invalid value: string " ++ shownString name ++
      ", expected a plain file name without '/' or '..' for key `" ++ place.text ++ "`"

namespace Conversion

/-- A converted value, or the reason why there is none. -/
abbrev Result := Except Config.ConversionError

/-- The truth value that a word in lower case stands for. -/
def truthWord? (word : String) : Option Bool :=
  if word = "true" ∨ word = "on" ∨ word = "yes" then some true
  else if word = "false" ∨ word = "off" ∨ word = "no" then some false
  else none

/-- The letters of a string in lower case; only ASCII letters matter for the words and numbers that
are looked for. -/
def lowered (s : String) : String := String.ofList (s.toList.map Char.toLower)

/-- A 64-bit count. Floating-point numbers are rounded and brought into range. -/
def count (place : Place) (d : Data) : Result UInt64 :=
  match d with
  | .int n => if n < 0 then .error (.negative n place) else .ok (UInt64.ofNat n.toNat)
  | .float x => .ok x.toUInt64Saturating
  | .bool b => .ok (if b then 1 else 0)
  | .text s =>
    match truthWord? (lowered s) with
    | some b => .ok (if b then 1 else 0)
    | none =>
      match Numeral.readUInt64 s.toList with
      | some n => .ok n
      | none => .error (.kind d .integer place)
  | _ => .error (.kind d .integer place)

/-- A number of seconds. -/
def seconds (place : Place) (d : Data) : Result Binary64 :=
  match d with
  | .int n => .ok (.ofInt n)
  | .float x => .ok x
  | .bool b => .ok (.ofInt (if b then 1 else 0))
  | .text s =>
    match truthWord? (lowered s) with
    | some b => .ok (.ofInt (if b then 1 else 0))
    | none =>
      match Numeral.readFloat s.toList with
      | some x => .ok x
      | none => .error (.kind d .float place)
  | _ => .error (.kind d .float place)

/-- A string. -/
def text (place : Place) (d : Data) : Result String :=
  match d with
  | .text s => .ok s
  | .int n => .ok (toString n)
  | .float x => .ok (x.text .plain)
  | .bool b => .ok (if b then "true" else "false")
  | _ => .error (.kind d .string place)

/-- A value or null. -/
def optional {α : Type} (convert : Place → Data → Result α) (place : Place) (d : Data) :
    Result (Option α) :=
  match d with
  | .null => .ok none
  | d => (convert place d).map some

/-- The items of a list, each converted at its own place. -/
def items {α : Type} (convert : Place → Data → Result α) (place : Place) (start : Nat) :
    List Data → Result (List α)
  | [] => .ok []
  | d :: ds => do
    let a ← convert (place ++ [.index start]) d
    let as ← items convert place (start + 1) ds
    pure (a :: as)

/-- A list of strings. -/
def texts (place : Place) (d : Data) : Result (List String) :=
  match d with
  | .list ds => items text place 0 ds
  | _ => .error (.kind d .sequence place)

/-- The name of a source file. -/
def sourceFile (place : Place) (d : Data) : Result SourceFile := do
  let name ← text place d
  match SourceFile.ofName? name with
  | some file => pure file
  | none => .error (.fileName name place)

/-- The parts of a structure: by name from a table, or by position from a list. -/
inductive Parts where
  | named (entries : List (String × Data))
  | listed (items : List Data)

/-- The parts of a structure that is a table or a list. -/
def parts (wanted : Wanted) (place : Place) (d : Data) : Result Parts :=
  match d with
  | .table es => .ok (.named es)
  | .list ds => .ok (.listed ds)
  | _ => .error (.kind d wanted place)

/-- The part with a name and a position, and its place. -/
def Parts.part? (ps : Parts) (place : Place) (name : String) (position : Nat) :
    Option (Place × Data) :=
  match ps with
  | .named es => (es.lookup name).map fun d => (place ++ [.key name], d)
  | .listed ds => ds[position]?.map fun d => (place ++ [.index position], d)

/-- A part that may be missing. -/
def Parts.get {α : Type} (ps : Parts) (place : Place) (name : String) (position : Nat)
    (convert : Place → Data → Result α) : Result (Option α) :=
  match ps.part? place name position with
  | some (inner, d) => (convert inner d).map some
  | none => .ok none

/-- The error for a part that must not be missing. -/
def Parts.absent (ps : Parts) (place : Place) (name : String) (position : Nat) :
    Config.ConversionError :=
  match ps with
  | .named _ => .missing (place ++ [.key name])
  | .listed _ => .tooShort position place

/-- Settings of the pools. -/
def poolSettings (place : Place) (d : Data) : Result PoolSettings := do
  let ps ← parts .poolSettings place d
  let size ← ps.get place "size" 0 count
  let pollInterval ← ps.get place "poll_interval_ms" 1 count
  let retryBackoff ← ps.get place "retry_backoff_ms" 2 count
  let unset : PoolSettings := {}
  pure ⟨size.getD unset.size, pollInterval.getD unset.pollInterval,
    retryBackoff.getD unset.retryBackoff⟩

/-- After a part that must not be missing: a list ends at the first part it lacks, whereas in a table
the other parts are looked at all the same. -/
def Parts.goOn {α : Type} (ps : Parts) (place : Place) (name : String) (position : Nat)
    (found : Option α) : Result Unit :=
  match ps, found with
  | .listed _, none => .error (ps.absent place name position)
  | _, _ => .ok ()

/-- A part that must not be missing. -/
def Parts.require {α : Type} (ps : Parts) (place : Place) (name : String) (position : Nat)
    (found : Option α) : Result α :=
  match found with
  | some a => .ok a
  | none => .error (ps.absent place name position)

/-- A profile. In a table, parts of the wrong kind are reported before missing ones. -/
def profile (place : Place) (d : Data) : Result Profile := do
  let ps ← parts .profile place d
  let image ← ps.get place "image" 0 text
  ps.goOn place "image" 0 image
  let file ← ps.get place "source_file" 1 sourceFile
  ps.goOn place "source_file" 1 file
  let compile ← ps.get place "compile_cmd" 2 (optional texts)
  let run ← ps.get place "run_cmd" 3 texts
  ps.goOn place "run_cmd" 3 run
  let memory ← ps.get place "memory_limit" 4 (optional count)
  let time ← ps.get place "time_limit" 5 (optional seconds)
  let image ← ps.require place "image" 0 image
  let file ← ps.require place "source_file" 1 file
  let run ← ps.require place "run_cmd" 3 run
  pure ⟨image, file, compile.join, run, memory.join, time.join⟩

/-- The profiles of the languages. -/
def profiles (place : Place) : List (String × Data) → Result (List (String × Profile))
  | [] => .ok []
  | (id, d) :: es => do
    let p ← profile (place ++ [.key id]) d
    let ps ← profiles place es
    pure ((id, p) :: ps)

/-- The table of languages. -/
def languages (place : Place) (d : Data) : Result (List (String × Profile)) :=
  match d with
  | .table es => profiles place es
  | _ => .error (.kind d .table place)

end Conversion

/-- The configuration of a tree; what is not set keeps its default. -/
def Config.ofData (d : Data) : Conversion.Result Config := do
  let ps := Conversion.Parts.named (KeyPath.entriesOf d)
  let host ← ps.get [] "docker_host" 0 (Conversion.optional Conversion.text)
  let pool ← ps.get [] "pool" 1 Conversion.poolSettings
  let maxOutput ← ps.get [] "max_output" 2 Conversion.count
  let fallbackTime ← ps.get [] "fallback_time_limit" 3 Conversion.seconds
  let languages ← ps.get [] "languages" 4 Conversion.languages
  let unset : Config := {}
  pure {
    host := host.join
    pool := pool.getD unset.pool
    maxOutput := maxOutput.getD unset.maxOutput
    fallbackTime := fallbackTime.getD unset.fallbackTime
    languages := languages.getD [] }

end Isolate
