import Isolate.Archive.Header
import Isolate.Archive.Name
import Isolate.Archive.Pack
import Isolate.Archive.Unpack
import Isolate.Capture
import Isolate.CommandLine.Arguments
import Isolate.CommandLine.Plan
import Isolate.CommandLine.Report
import Isolate.Config.Basic
import Isolate.Config.Builtin
import Isolate.Config.Conversion
import Isolate.Config.File
import Isolate.Config.KeyPath
import Isolate.Config.Validity
import Isolate.Container
import Isolate.Daemon.Error
import Isolate.Daemon.Frame
import Isolate.Daemon.Request
import Isolate.Daemon.Response
import Isolate.Daemon.Target
import Isolate.Data
import Isolate.Engine.Basic
import Isolate.Engine.Provision
import Isolate.Engine.Removal
import Isolate.Json.Decoder
import Isolate.Json.Printer
import Isolate.Json.Reader
import Isolate.Json.Shape
import Isolate.Json.Token
import Isolate.Language
import Isolate.Main
import Isolate.Number.Binary64
import Isolate.Number.Decimal
import Isolate.Number.Width
import Isolate.Outcome
import Isolate.Pool
import Isolate.Proofs.Archive.Blocks
import Isolate.Proofs.Archive.Delivery
import Isolate.Proofs.Archive.Names
import Isolate.Proofs.Archive.Stamps
import Isolate.Proofs.Archive.Unpacking
import Isolate.Proofs.Config.Draft
import Isolate.Proofs.Config.Loading
import Isolate.Proofs.Config.TimeLimit
import Isolate.Proofs.Config.Validity
import Isolate.Proofs.Number.Exact
import Isolate.Proofs.Pool
import Isolate.Proofs.Result
import Isolate.Proofs.Run.Capturing
import Isolate.Proofs.Run.Course
import Isolate.Proofs.Run.Execution
import Isolate.Proofs.Run.Placement
import Isolate.Proofs.Run.Played
import Isolate.Proofs.Run.Race
import Isolate.Proofs.Run.Service
import Isolate.Proofs.Run.Stages
import Isolate.Proofs.Run.Timeline
import Isolate.Proofs.Run.Trace
import Isolate.Proofs.Shell.Quoting
import Isolate.Proofs.Shell.Steps
import Isolate.Proofs.Supervisor.Barrier
import Isolate.Proofs.Supervisor.Charge
import Isolate.Proofs.Supervisor.Closing
import Isolate.Proofs.Supervisor.Conservation
import Isolate.Proofs.Supervisor.Custody
import Isolate.Proofs.Supervisor.Dropping
import Isolate.Proofs.Supervisor.Exclusivity
import Isolate.Proofs.Supervisor.Hearing
import Isolate.Proofs.Supervisor.Keeping
import Isolate.Proofs.Supervisor.Layout
import Isolate.Proofs.Supervisor.Limit
import Isolate.Proofs.Supervisor.Pacing
import Isolate.Proofs.Supervisor.Phases
import Isolate.Proofs.Supervisor.Provenance
import Isolate.Proofs.Supervisor.Stopping
import Isolate.Proofs.Supervisor.Supply
import Isolate.Proofs.Supervisor.Turn
import Isolate.Proofs.Supervisor.Upkeep
import Isolate.Proofs.Supervisor.Visits
import Isolate.Proofs.Text.Decoding
import Isolate.Rehearsal.Play
import Isolate.Rehearsal.Routes
import Isolate.Rehearsal.Scene
import Isolate.Rehearsal.Script
import Isolate.Rehearsal.Session
import Isolate.Rehearsal.Trials
import Isolate.Request.Basic
import Isolate.Request.Reader
import Isolate.Run.Basic
import Isolate.Run.Error
import Isolate.Run.Execution
import Isolate.Run.Job
import Isolate.Shell.Command
import Isolate.Shell.Script
import Isolate.Shell.Token
import Isolate.Supervisor.Basic
import Isolate.Supervisor.Inventory
import Isolate.Supervisor.Step
import Isolate.Supervisor.Upkeep
import Isolate.Text.Quoted
import Isolate.Text.Unprintable
import Isolate.Text.Utf8
import Isolate.Time
import Isolate.Toml.Moment
import Isolate.Toml.Reader
import Isolate.Toml.Scalar
import Isolate.Toml.Table
import Isolate.Yaml.Cursor
import Isolate.Yaml.Layout
import Isolate.Yaml.Node
import Isolate.Yaml.Reader
import Isolate.Yaml.Scalar
import Isolate.Yaml.Token
import Isolate.Yaml.Tokens
import Isolate.Proofs.CommandLine.Status
import Isolate.Proofs.Config.Reloading
import Isolate.Proofs.Supervisor.Ceiling
import Isolate.Proofs.Supervisor.Hazards
import Isolate.Proofs.Supervisor.Submission
