import Arbor.Binary64
import Arbor.Camera
import Arbor.Color
import Arbor.CommandLine.Folder
import Arbor.CommandLine.Invocation
import Arbor.CommandLine.Options
import Arbor.CommandLine.Run
import Arbor.CommandLine.Surroundings
import Arbor.Config.Basic
import Arbor.Config.Reading
import Arbor.Config.Writing
import Arbor.Decimal.Reading
import Arbor.Decimal.Shortest
import Arbor.Decimal.Style
import Arbor.Environment.Basic
import Arbor.Environment.File
import Arbor.Error
import Arbor.Event.Basic
import Arbor.Event.Json
import Arbor.Event.Summary
import Arbor.Generation.Json
import Arbor.Generation.Params
import Arbor.Generation.Run
import Arbor.Grammar.Basic
import Arbor.Grammar.Catalog
import Arbor.Grammar.Growth
import Arbor.Grammar.Index
import Arbor.Grammar.Selection
import Arbor.Image
import Arbor.Json.Basic
import Arbor.Json.Parser
import Arbor.Json.Printer
import Arbor.Log.Basic
import Arbor.Log.Filter
import Arbor.Main
import Arbor.Path
import Arbor.Png
import Arbor.Power
import Arbor.Proofs.Binary64.Arithmetic
import Arbor.Proofs.Binary64.Between
import Arbor.Proofs.Binary64.Compare
import Arbor.Proofs.Binary64.Floor
import Arbor.Proofs.Binary64.Order
import Arbor.Proofs.Binary64.Parts
import Arbor.Proofs.Binary64.Rounding
import Arbor.Proofs.Binary64.Scaling
import Arbor.Proofs.Binary64.Value
import Arbor.Proofs.CommandLine.Generate
import Arbor.Proofs.Config.Accepted
import Arbor.Proofs.Config.Checks
import Arbor.Proofs.Config.Direct
import Arbor.Proofs.Config.Resolve
import Arbor.Proofs.Event.Bounds
import Arbor.Proofs.Event.Json
import Arbor.Proofs.Exact
import Arbor.Proofs.Generation.AllOrNothing
import Arbor.Proofs.Generation.Balance
import Arbor.Proofs.Generation.Departure
import Arbor.Proofs.Generation.Draws
import Arbor.Proofs.Generation.FewerPasses
import Arbor.Proofs.Generation.Grouping
import Arbor.Proofs.Generation.Range
import Arbor.Proofs.Generation.Seeds
import Arbor.Proofs.Grammar.Draft
import Arbor.Proofs.Grammar.Index
import Arbor.Proofs.Grammar.Partition
import Arbor.Proofs.Growth.Balance
import Arbor.Proofs.Growth.Bounds
import Arbor.Proofs.Growth.Choice
import Arbor.Proofs.Growth.Counts
import Arbor.Proofs.Growth.Draws
import Arbor.Proofs.Growth.Outcome
import Arbor.Proofs.Growth.Unlimited
import Arbor.Proofs.Image.Lines
import Arbor.Proofs.Image.Outside
import Arbor.Proofs.Image.Painting
import Arbor.Proofs.Json.Numeral
import Arbor.Proofs.Json.Reading
import Arbor.Proofs.Json.Text
import Arbor.Proofs.Random.Count
import Arbor.Proofs.Random.Draws
import Arbor.Proofs.Random.Interval
import Arbor.Proofs.Random.Rounded
import Arbor.Proofs.Random.Seeds
import Arbor.Proofs.Random.Step
import Arbor.Proofs.Random.Stream
import Arbor.Proofs.Random.Unit
import Arbor.Proofs.Real
import Arbor.Proofs.Selection.Fairness
import Arbor.Proofs.Selection.Partition
import Arbor.Proofs.Selection.Rounded
import Arbor.Proofs.Selection.Scan
import Arbor.Proofs.Selection.Sums
import Arbor.Proofs.Snapshot.Fit
import Arbor.Proofs.Snapshot.Layers
import Arbor.Proofs.Text.Colors
import Arbor.Proofs.Text.Hex
import Arbor.Proofs.Turtle.Balanced
import Arbor.Proofs.Turtle.Branch
import Arbor.Proofs.Turtle.Checked
import Arbor.Proofs.Turtle.Draws
import Arbor.Proofs.Turtle.Heading
import Arbor.Proofs.Turtle.Matching
import Arbor.Proofs.Turtle.Measures
import Arbor.Proofs.Turtle.Range
import Arbor.Proofs.Turtle.Restore
import Arbor.Proofs.Turtle.Spine
import Arbor.Proofs.Turtle.Trail
import Arbor.Proofs.Turtle.Walk
import Arbor.Proofs.Vec3.Normalize
import Arbor.Proofs.Vec3.Products
import Arbor.Proofs.Vec3.Unit
import Arbor.Proofs.Viewer.Agreement
import Arbor.Proofs.Viewer.Plot
import Arbor.Proofs.Viewer.Shown
import Arbor.Random.Source
import Arbor.Random.Xorshift
import Arbor.Scalar
import Arbor.Snapshot
import Arbor.Text.Blank
import Arbor.Text.Hex
import Arbor.Text.Integer
import Arbor.Text.Printable
import Arbor.Text.Quoted
import Arbor.Text.Units
import Arbor.Turtle.Brackets
import Arbor.Turtle.Command
import Arbor.Turtle.State
import Arbor.Turtle.Walk
import Arbor.Vec3
import Arbor.Viewer.Basic
import Arbor.Viewer.Frame
import Arbor.Viewer.Gesture
import Arbor.Viewer.Orbit
import Arbor.Viewer.Plot
import Arbor.Yaml.Compose
import Arbor.Yaml.Cursor
import Arbor.Yaml.Lexer
import Arbor.Yaml.Node
import Arbor.Yaml.Printer
import Arbor.Yaml.Resolve
import Arbor.Yaml.ScalarText
import Arbor.Yaml.Token
import Arbor.Yaml.Value
import Arbor.Proofs.Random.Integers
import Arbor.Proofs.Snapshot.Camera
