import LaserPath.Calendar
import LaserPath.CommandLine.Arguments
import LaserPath.CommandLine.Request
import LaserPath.CommandLine.Run
import LaserPath.Config.File
import LaserPath.Config.Json
import LaserPath.Config.Toml
import LaserPath.Decimal.Basic
import LaserPath.Decimal.Binary64
import LaserPath.Decimal.Power
import LaserPath.Decimal.Reader
import LaserPath.Decimal.Rounding
import LaserPath.Decimal.Scaling
import LaserPath.Decimal.Shortest
import LaserPath.Decimal.Spelling
import LaserPath.FileName
import LaserPath.Files.Basic
import LaserPath.Files.Path
import LaserPath.GCode
import LaserPath.Json.Basic
import LaserPath.Json.Printer
import LaserPath.Json.Reader
import LaserPath.Json.Record
import LaserPath.Main
import LaserPath.Measure
import LaserPath.Point
import LaserPath.Program
import LaserPath.Proofs.Calendar
import LaserPath.Proofs.CommandLine.Export
import LaserPath.Proofs.CommandLine.Run
import LaserPath.Proofs.CommandLine.Settings
import LaserPath.Proofs.CommandLine.Steps
import LaserPath.Proofs.Config.File
import LaserPath.Proofs.Config.Json
import LaserPath.Proofs.Config.Sections
import LaserPath.Proofs.Config.Toml
import LaserPath.Proofs.Decimal.Characters
import LaserPath.Proofs.Decimal.Finite
import LaserPath.Proofs.Decimal.Leading
import LaserPath.Proofs.Decimal.Order
import LaserPath.Proofs.Decimal.Readback
import LaserPath.Proofs.FileName
import LaserPath.Proofs.Files
import LaserPath.Proofs.Files.Join
import LaserPath.Proofs.GCode.Coordinates
import LaserPath.Proofs.GCode.Lines
import LaserPath.Proofs.Json.Reading
import LaserPath.Proofs.Json.Tokens
import LaserPath.Proofs.Measure.Coordinate
import LaserPath.Proofs.Measure.Digits
import LaserPath.Proofs.Program.Accounts
import LaserPath.Proofs.Program.Assembly
import LaserPath.Proofs.Program.Coordinates
import LaserPath.Proofs.Program.Lines
import LaserPath.Proofs.Program.Outcome
import LaserPath.Proofs.Program.Quoting
import LaserPath.Proofs.Program.Rates
import LaserPath.Proofs.Program.Survivors
import LaserPath.Proofs.Route.Conservation
import LaserPath.Proofs.Route.Greedy
import LaserPath.Proofs.Route.Rates
import LaserPath.Proofs.Route.Relabel
import LaserPath.Proofs.Route.Repetition
import LaserPath.Proofs.Route.Ties
import LaserPath.Proofs.Route.Turning
import LaserPath.Proofs.Scene.Document
import LaserPath.Proofs.Scene.NetworkText
import LaserPath.Proofs.Selection
import LaserPath.Proofs.Selection.Addresses
import LaserPath.Proofs.Settings
import LaserPath.Proofs.Shape.Compile
import LaserPath.Proofs.Shape.Motions
import LaserPath.Proofs.Shape.Opening
import LaserPath.Proofs.Shape.Rates
import LaserPath.Proofs.Shape.Refusal
import LaserPath.Proofs.Shape.RouteAnchors
import LaserPath.Proofs.Stamp
import LaserPath.Proofs.Text.Lines
import LaserPath.Proofs.Toml.Lines
import LaserPath.Proofs.Toml.Scalar
import LaserPath.Proofs.Toolpath.Edges
import LaserPath.Proofs.Toolpath.Emission
import LaserPath.Proofs.Toolpath.Gathering
import LaserPath.Proofs.Toolpath.Rates
import LaserPath.Proofs.Toolpath.Reversal
import LaserPath.Proofs.Toolpath.Runs
import LaserPath.Proofs.Toolpath.Twice
import LaserPath.Proofs.Trace.Chains
import LaserPath.Proofs.Trace.Network
import LaserPath.Proofs.Trace.Outline
import LaserPath.Proofs.Trace.PathData
import LaserPath.Proofs.Trace.Pen
import LaserPath.Proofs.Trace.Tokens
import LaserPath.Route.Block
import LaserPath.Route.Nearest
import LaserPath.Scene.Document
import LaserPath.Scene.Network
import LaserPath.Scene.Node
import LaserPath.Selection
import LaserPath.Settings
import LaserPath.Shape.Anchor
import LaserPath.Shape.Basic
import LaserPath.Shape.Compile
import LaserPath.Shape.Error
import LaserPath.Shape.Network
import LaserPath.Text.Blank
import LaserPath.Text.Hexadecimal
import LaserPath.Toml.Basic
import LaserPath.Toml.Reader
import LaserPath.Toml.Scalar
import LaserPath.Toml.Text
import LaserPath.Toolpath.Basic
import LaserPath.Toolpath.Reversal
import LaserPath.Trace.Cubic
import LaserPath.Trace.Figure
import LaserPath.Trace.Network
import LaserPath.Trace.PathData
