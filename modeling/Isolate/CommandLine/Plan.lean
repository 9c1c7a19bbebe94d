import Isolate.CommandLine.Arguments
import Isolate.CommandLine.Report
import Isolate.Request.Basic

/-!
# What a command does

A command looks at files, talks to a daemon and ends with a report. `Plan` says what it does next for
every answer that it may get; carrying it out is left to others.

* `Plan`: the questions of a command and how it goes on;
* `Plan.ofCommand`: the plan of a command under a configuration;
* `Plan.ofInvocation`: the plan of an invocation, which first reads the configuration;
* `Plan.ofArguments`: the plan of a command line.
-/

namespace Isolate.CommandLine

/-- What a command still does. -/
inductive Plan where
  | finish (report : Report)
  /-- Reads a file. -/
  | read (path : String) (next : Except FileFault Bytes → Plan)
  /-- Writes a file, which need not exist before. -/
  | write (path text : String) (next : Except FileFault Unit → Plan)
  /-- Looks for the daemon. -/
  | connect (host : Option String) (next : Except DaemonError Unit → Plan)
  /-- Asks the daemon whether it is there. -/
  | ping (next : Except DaemonError Unit → Plan)
  /-- Runs one request. -/
  | run (config : Config) (request : Request) (next : Except RunError Outcome → Plan)
  /-- Runs one request many times, so many at once, after waiting for the warm pool of its language.
  There is no answer if the pools cannot be set up. -/
  | bench (config : Config) (request : Request) (count concurrency : Nat)
      (next : Option Bench → Plan)

namespace Plan

/-- Ends with a failure. -/
def fail (f : Failure) : Plan := .finish (.failure f)

/-- Reads a file as text, or fails. -/
def readText (path failing : String) (next : String → Plan) : Plan :=
  .read path fun answer =>
    match answer with
    | .error fault => fail (.ofFile failing fault)
    | .ok bytes =>
      match Utf8.decode? bytes with
      | some text => next text
      | none => fail (.ofFile failing .notText)

/-- Reads a file as text if one is named, or fails. -/
def readText? (path : Option String) (failing : String) (next : Option String → Plan) : Plan :=
  match path with
  | some path => readText path failing fun text => next (some text)
  | none => next none

/-- A number of seconds as a time limit, or fails. -/
def timeLimit (seconds : Option Binary64) (next : Option Duration → Plan) : Plan :=
  match seconds with
  | none => next none
  | some seconds =>
    match Duration.ofSeconds seconds with
    | .ok limit => next (some limit)
    | .error e => fail ⟨"invalid time limit", [e.message]⟩

/-- Makes sure that there is a daemon, or fails. -/
def reach (host : Option String) (next : Plan) : Plan :=
  .connect host fun answer =>
    match answer with
    | .error e => fail (.ofEngine "failed to connect to docker" (.daemon e))
    | .ok _ => .ping fun answer =>
      match answer with
      | .error e => fail (.ofEngine "docker daemon is not responding" (.daemon e))
      | .ok _ => next

/-- The status where there is no room for the warm pools. -/
def noRoomStatus : UInt8 := 101

/-- A configuration without warm pools: a single run gains nothing from them. -/
def withoutPools (c : Config) : Config := { c with pool := { c.pool with size := 0 } }

/-- A file's content is there for a path. -/
def isThere : Except FileFault Bytes → Bool
  | .error .missing => false
  | .error .notDirectory => false
  | _ => true

/-- Writes the example configuration, but not over an existing file unless forced to. -/
def initialise (output : String) (force : Bool) : Plan :=
  .read output fun answer =>
    if isThere answer && !force then
      fail ⟨"Configuration file already exists at '" ++ output ++ "'. Use --force to overwrite.", []⟩
    else .write output Config.exampleText fun answer =>
      match answer with
      | .ok _ => .finish (.success ("Created configuration file at '" ++ output ++ "'\n"))
      | .error fault => fail (.ofFile "failed to write configuration file" fault)

/-- Runs a file once. -/
def runOnce (config : Config) (source language : String) (input : Option String)
    (time : Option Binary64) (memory : Option UInt64) (json : Bool) : Plan :=
  readText source "failed to read source file" fun code =>
    readText? input "failed to read input file" fun stdin =>
      timeLimit time fun limit =>
        reach config.host (.run (withoutPools config) ⟨language, code, stdin, limit, memory⟩
          fun result => .finish (.ofRun json result))

/-- Runs a file many times. -/
def runMany (config : Config) (source language : String) (count concurrency : Nat) : Plan :=
  readText source "failed to read source file" fun code =>
    match config.profileOf language with
    | .error e => fail ⟨"unknown language", [e.message]⟩
    | .ok _ =>
      reach config.host (.bench config ⟨language, code, none, none, none⟩ count (max 1 concurrency)
        fun answer =>
          match answer with
          | some trials => .finish (.ofBench trials)
          | none => .finish ⟨noRoomStatus, "", ""⟩)

/-- What a command does under a configuration. -/
def ofCommand (config : Config) : Command → Plan
  | .init output force => initialise output force
  | .run source language input time memory json =>
    runOnce config source language input time memory json
  | .bench source language count concurrency => runMany config source language count concurrency
  | .languages => .finish (.ofLanguages config)
  | .showConfig => .finish (.ofConfig config)

/-- What a configuration is read from. -/
def nodeOf : Except FileFault Bytes → Config.Node
  | .ok bytes => .file bytes
  | .error .isDirectory => .directory
  | .error (.refused _) => .refused
  | .error _ => .nothing

/-- What an invocation does. Where the named configuration cannot be used, the built-in one is. -/
def ofInvocation (v : Invocation) : Plan :=
  match v.config with
  | none => ofCommand Config.builtin v.command
  | some path => .read path fun answer =>
    ofCommand (Config.loadOrBuiltin (some (path, nodeOf answer))) v.command

end Plan

/-- How the program is used. -/
def usage : String := "A tool for running untrusted code in hardened containers

Usage: runbox [OPTIONS] <COMMAND>

Commands:
  init         Initialize a new configuration file
  run          Run a program once in a fresh container
  bench        Run a program repeatedly through the warm pools
  languages    List available languages
  show-config  Show the effective configuration
  help         Print this message or the help of the given subcommand(s)

Options:
  -c, --config <CONFIG>  Path to configuration file
  -v, --verbose          Enable verbose output
  -h, --help             Print help
  -V, --version          Print version
"

/-- The report where arguments give no invocation. -/
def Stop.report : Stop → Report
  | .help => .success usage
  | .version => .success "runbox 0.1.0\n"
  | .misuse => ⟨2, "", usage⟩

/-- The plan of a command line. -/
def Plan.ofArguments (arguments : List String) : Plan :=
  match Invocation.ofArguments arguments with
  | .ok v => .ofInvocation v
  | .error stop => .finish stop.report

end Isolate.CommandLine
