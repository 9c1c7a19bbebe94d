import Isolate.Container

/-!
# Configurations

* `PoolSettings`, `Config`: what can be set;
* `Config.profile?`, `Config.profileOf`: the profile of a language, or the error that there is none;
* `Config.timeLimit`: the wall-clock limit of a request.
-/

namespace Isolate

/-- Settings shared by the warm pools. -/
structure PoolSettings where
  /-- Containers kept ready for each language; zero means no pools. -/
  size : UInt64 := 3
  /-- Milliseconds between looks at a pool. -/
  pollInterval : UInt64 := 100
  /-- Milliseconds to wait after a container could not be created. -/
  retryBackoff : UInt64 := 1000
  deriving DecidableEq, Repr

/-- Five seconds. -/
def fiveSeconds : Binary64 := ⟨0x4014000000000000⟩

/-- The settings of a runner. -/
structure Config where
  /-- Where the engine listens; none means the local default. -/
  host : Option String := none
  pool : PoolSettings := {}
  /-- The most bytes kept of each output stream. -/
  maxOutput : UInt64 := 10240
  /-- Seconds allowed where neither the request nor the language sets a positive limit. -/
  fallbackTime : Binary64 := fiveSeconds
  /-- The profiles of the languages, by their ids. -/
  languages : List (String × Profile) := []
  deriving DecidableEq

namespace Config

/-- A configuration without languages. -/
def empty : Config := {}

/-- The profile of a language. -/
def profile? (c : Config) (language : String) : Option Profile := c.languages.lookup language

/-- What can be wrong with a single name that a user gives. -/
inductive Error where
  /-- No plain name for a source file. -/
  | fileName (name : String)
  /-- No profile has this id. -/
  | unknownLanguage (id : String)
  deriving DecidableEq, Repr

/-- The wording of an error. -/
def Error.message : Error → String
  | .fileName name => "invalid source file name '" ++ name ++ "'"
  | .unknownLanguage id => "language '" ++ id ++ "' not found in configuration"

/-- The profile of a language, or the error that there is none. -/
def profileOf (c : Config) (language : String) : Except Error Profile :=
  match c.profile? language with
  | some p => .ok p
  | none => .error (.unknownLanguage language)

/-- The limit used where the fallback itself is not positive or cannot be kept. -/
def lastResortTime : Duration := .ofWholeSeconds 5

/-- The limit where neither the request nor the language sets one. -/
def fallbackLimit (c : Config) : Duration :=
  (Duration.ofPositiveSeconds? c.fallbackTime).getD lastResortTime

/-- The wall-clock limit of a request: its own unless zero, else that of the profile, else the
fallback. -/
def timeLimit (c : Config) (p : Profile) (override : Option Duration) : Duration :=
  ((override.filter (!·.isZero)).or p.ownTimeLimit).getD c.fallbackLimit

end Config

end Isolate
