import Isolate.Config.Basic

/-!
# Valid configurations

* `Config.Defect`: what makes a configuration unusable, with its wording;
* `Config.firstDefect`: the first defect, looking at the languages one after the other and then at
  the other settings;
* `Config.Valid`: the rules that an accepted configuration satisfies.
-/

namespace Isolate

/-- A number of seconds that is either unset, by not being positive, or can be kept as a duration. -/
def isTimeSetting (x : Binary64) : Bool :=
  x.isFinite && (!x.isPositive || (Duration.ofSeconds x).isOk)

/-- What makes a profile unusable. -/
inductive Profile.Defect where
  | noImage
  | noRun
  | noCompile
  | time (seconds : Binary64)
  deriving DecidableEq, Repr

/-- The first defect of a profile. -/
def Profile.firstDefect (p : Profile) : Option Profile.Defect :=
  if p.image = "" then some .noImage
  else if p.run = [] then some .noRun
  else if p.compile = some [] then some .noCompile
  else match p.time with
    | some x => if isTimeSetting x then none else some (.time x)
    | none => none

/-- A profile that can be used. -/
structure Profile.Valid (p : Profile) : Prop where
  image : p.image ≠ ""
  run : p.run ≠ []
  compile : p.compile ≠ some []
  time : ∀ x ∈ p.time, isTimeSetting x = true

namespace Config

/-- What makes a configuration unusable. -/
inductive Defect where
  | language (id : String) (defect : Profile.Defect)
  | fallbackTime (seconds : Binary64)
  | noOutput
  deriving DecidableEq, Repr

/-- The wording of a defect. -/
def Defect.message : Defect → String
  | .language id defect =>
    "language '" ++ id ++ "' has " ++ match defect with
      | .noImage => "empty image"
      | .noRun => "empty run command"
      | .noCompile => "empty compile command"
      | .time x => "out-of-range time limit " ++ x.text .plain
  | .fallbackTime x => "fallback_time_limit " ++ x.text .plain ++ " is out of range"
  | .noOutput => "max_output must be positive"

/-- The first defect of a configuration. -/
def firstDefect (c : Config) : Option Defect :=
  let inLanguages := c.languages.findSome? fun (id, p) => p.firstDefect.map (Defect.language id)
  match inLanguages with
  | some defect => some defect
  | none =>
    if !isTimeSetting c.fallbackTime then some (.fallbackTime c.fallbackTime)
    else if c.maxOutput = 0 then some .noOutput
    else none

/-- A configuration that can be used. -/
structure Valid (c : Config) : Prop where
  languages : ∀ entry ∈ c.languages, entry.2.Valid
  fallbackTime : isTimeSetting c.fallbackTime = true
  maxOutput : c.maxOutput ≠ 0

end Config

end Isolate
