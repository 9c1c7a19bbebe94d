import Isolate.Config.Conversion
import Isolate.Config.Validity
import Isolate.Json.Reader
import Isolate.Text.Utf8
import Isolate.Toml.Reader
import Isolate.Yaml.Reader

/-!
# Reading configurations

* `Config.Format`: the formats of configuration texts, chosen by the ending of a file's name;
* `Config.ofText`: the configuration of a text, accepted only if it is valid;
* `Config.ofJson`: that of a JSON text whose numbers are read in a given way;
* `Config.ofFile`: the configuration of a file.
-/

namespace Isolate.Config

/-- A format of configuration texts. -/
inductive Format where
  | toml
  | json
  | yaml
  deriving DecidableEq, Repr

/-- The last component of a path. -/
def fileName (path : String) : List Char :=
  (path.toList.reverse.takeWhile (· != '/')).reverse

/-- The ending of a file's name: what follows its last dot, if that dot is not its first character. -/
def ending? (path : String) : Option String :=
  let reversed := (fileName path).reverse
  match reversed.dropWhile (· != '.') with
  | _ :: _ :: _ =>
    if reversed = ['.', '.'] then none
    else some (String.ofList (reversed.takeWhile (· != '.')).reverse)
  | _ => none

/-- The format of a file, by the ending of its name. Only the documented formats are covered: a file
of another one that a library knows by its ending (INI, RON or JSON5) counts as no document here. -/
def Format.ofPath? (path : String) : Option Format :=
  match ending? path with
  | some "toml" => some .toml
  | some "json" => some .json
  | some "yaml" => some .yaml
  | some "yml" => some .yaml
  | _ => none

/-- The entries of a document. -/
def Format.entries? : Format → String → Option (List (String × Data))
  | .toml, text => (Toml.read text).bind Data.entries?
  | .json, text => (Json.read text).toOption.bind fun d => d.settled.entries?
  | .yaml, text => (Yaml.read text).bind fun d => d.settled.entries?

/-- Why a text gives no configuration. -/
inductive LoadError where
  /-- There is no such file. -/
  | unreadable
  /-- The text is no document of its format. -/
  | grammar
  | conversion (error : ConversionError)
  | invalid (defect : Defect)

/-- The wording of a failure to load. -/
def LoadError.message : LoadError → String
  | .unreadable => "failed to read config file"
  | .grammar => "failed to parse config: the text is no document of its format"
  | .conversion e => "failed to parse config: " ++ e.message
  | .invalid defect => "invalid config: " ++ defect.message

/-- The configuration of the entries of a document, if it is one. -/
def ofEntries (entries? : Option (List (String × Data))) : Except LoadError Config :=
  match entries? with
  | none => .error .grammar
  | some entries =>
    match ofData (KeyPath.expand entries) with
    | .error e => .error (.conversion e)
    | .ok c =>
      match c.firstDefect with
      | some defect => .error (.invalid defect)
      | none => .ok c

/-- The configuration of a text. -/
def ofText (format : Format) (text : String) : Except LoadError Config :=
  ofEntries (format.entries? text)

/-- The configuration of a JSON text in which the numbers that are no integers are read in a given
way. -/
def ofJson (float? : Json.Numeral → Option Binary64) (text : String) : Except LoadError Config :=
  ofEntries ((Json.readBy float? text).toOption.bind fun d => d.settled.entries?)

/-- What stands under a name in a directory. -/
inductive Node where
  | nothing
  | directory
  /-- A file that cannot be read. -/
  | refused
  | file (content : Bytes)

/-- The text of a file: a byte order mark at its front is dropped, and bytes that are no text are
replaced. -/
def textOf (content : Bytes) : String :=
  Utf8.decodeLossy (match content with
    | 0xEF :: 0xBB :: 0xBF :: rest => rest
    | bytes => bytes)

/-- The configuration of a file. -/
def ofFile (path : String) : Node → Except LoadError Config
  | .nothing => .error .unreadable
  | .directory => .error .grammar
  | .refused => .error .grammar
  | .file content =>
    match Format.ofPath? path with
    | none => .error .grammar
    | some format => ofText format (textOf content)

end Isolate.Config
