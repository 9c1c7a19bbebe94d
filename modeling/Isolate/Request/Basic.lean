import Isolate.Time

/-!
# Requests

A request asks for one submission to be run; its limits override those of the language.
-/

namespace Isolate

/-- A submission to be run. -/
structure Request where
  language : String
  code : String
  stdin : Option String
  time : Option Duration
  memory : Option UInt64
  deriving DecidableEq, Inhabited

namespace Request

/-- A request without input and limits. -/
def ofCode (language code : String) : Request := ⟨language, code, none, none, none⟩

/-- The standard input, if there is any; empty input counts as none. -/
def input (r : Request) : Option String := r.stdin.filter (· != "")

end Request

end Isolate
