import Isolate.Shell.Script
import Isolate.Time

/-!
# Language profiles

What is needed to run submissions in one language:

* `SourceFile`: the plain name under which a submission is stored;
* `Profile`: image, file name, steps and limits;
* `Profile.memoryLimit`, `Profile.ownTimeLimit`: the limits that apply, where zero means unset;
* `Profile.script`: the steps of a submission as a shell script.
-/

namespace Isolate

/-- The file that carries a submission's standard input. -/
def inputFileName : String := "input.txt"

/-- Two dots stand next to each other. -/
def hasDoubleDot : List Char → Bool
  | '.' :: '.' :: _ => true
  | _ :: cs => hasDoubleDot cs
  | [] => false

/-- The name is not empty, has no slash and no two dots in a row, and is not that of the input
file. -/
def isSourceFileName (name : String) : Bool :=
  let cs := name.toList
  !(cs.isEmpty || cs.contains '/' || hasDoubleDot cs || name == inputFileName)

/-- The plain name of a submission's source file. -/
structure SourceFile where
  name : String
  plain : isSourceFileName name = true
  deriving DecidableEq

/-- The source file of a name, if the name is acceptable. -/
def SourceFile.ofName? (name : String) : Option SourceFile :=
  if h : isSourceFileName name = true then some ⟨name, h⟩ else none

/-- The memory in bytes allowed where neither the request nor the profile sets a limit. -/
def defaultMemoryLimit : UInt64 := 104857600

/-- A limit of zero counts as none. -/
def positive? (limit : Option UInt64) : Option UInt64 := limit.filter (0 < ·)

/-- How submissions in one language are run. -/
structure Profile where
  image : String
  sourceFile : SourceFile
  compile : Option (List String)
  run : List String
  /-- Bytes; zero means unset. -/
  memory : Option UInt64
  /-- Seconds; what is not positive means unset. -/
  time : Option Binary64
  deriving DecidableEq

namespace Profile

/-- Submissions are compiled before they run. -/
def isCompiled (p : Profile) : Bool := p.compile.isSome

/-- The memory limit of a request that sets none. -/
def ownMemoryLimit (p : Profile) : UInt64 := (positive? p.memory).getD defaultMemoryLimit

/-- The memory limit of a request: its own if positive, else that of the profile. -/
def memoryLimit (p : Profile) (override : Option UInt64) : UInt64 :=
  (positive? override).getD p.ownMemoryLimit

/-- The profile's time limit, if it sets one that can be kept. -/
def ownTimeLimit (p : Profile) : Option Duration := p.time.bind Duration.ofPositiveSeconds?

/-- The steps of a submission, fed from the input file if there is input. -/
def script (p : Profile) (hasInput : Bool) : Shell.Script where
  compile := p.compile
  run := p.run
  input := if hasInput then some inputFileName else none

end Profile

end Isolate
