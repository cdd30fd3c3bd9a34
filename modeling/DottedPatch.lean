import DottedPatch.Action.Basic
import DottedPatch.Action.Run
import DottedPatch.CommandLine.Invocation
import DottedPatch.CommandLine.Matches
import DottedPatch.CommandLine.Spec
import DottedPatch.Config.Collections
import DottedPatch.Config.Configuration
import DottedPatch.Config.Decode
import DottedPatch.Config.Encode
import DottedPatch.Config.Shape
import DottedPatch.Config.TypeError
import DottedPatch.Config.UnknownKeys
import DottedPatch.Disk.Basic
import DottedPatch.Disk.FilePath
import DottedPatch.Disk.Files
import DottedPatch.Failure
import DottedPatch.Gateway.Config
import DottedPatch.Gateway.Schema
import DottedPatch.Gateway.Shape
import DottedPatch.Main
import DottedPatch.Number.Double
import DottedPatch.Number.Numeral
import DottedPatch.Number.Shortest
import DottedPatch.Number.Width
import DottedPatch.Patch.Apply
import DottedPatch.Patch.Coercion
import DottedPatch.Patch.Event
import DottedPatch.Patch.Line
import DottedPatch.Patch.Pass
import DottedPatch.Patch.Persist
import DottedPatch.Patch.Rejection
import DottedPatch.Patch.Report
import DottedPatch.Patch.Session
import DottedPatch.Patch.Values
import DottedPatch.Patch.WriteBack
import DottedPatch.Proofs.Config.Bases
import DottedPatch.Proofs.Config.Collections
import DottedPatch.Proofs.Config.Places
import DottedPatch.Proofs.Config.Reload
import DottedPatch.Proofs.Config.Sections
import DottedPatch.Proofs.Config.Shapes
import DottedPatch.Proofs.Except
import DottedPatch.Proofs.Gateway.Guards
import DottedPatch.Proofs.Gateway.Passes
import DottedPatch.Proofs.Gateway.Reload
import DottedPatch.Proofs.Gateway.Sessions
import DottedPatch.Proofs.Gateway.WriteBack
import DottedPatch.Proofs.Patch.Bases
import DottedPatch.Proofs.Patch.Description
import DottedPatch.Proofs.Patch.Guards
import DottedPatch.Proofs.Patch.Histories
import DottedPatch.Proofs.Patch.Idempotence
import DottedPatch.Proofs.Patch.Kinds
import DottedPatch.Proofs.Patch.Outcomes
import DottedPatch.Proofs.Patch.Reload
import DottedPatch.Proofs.Patch.Sessions
import DottedPatch.Proofs.Patch.Steps
import DottedPatch.Proofs.Patch.Storage
import DottedPatch.Proofs.Patch.Targets
import DottedPatch.Proofs.Patch.Touches
import DottedPatch.Proofs.Patch.Trails
import DottedPatch.Proofs.Patch.WriteBack
import DottedPatch.Proofs.Schema.Check
import DottedPatch.Proofs.Schema.Coverage
import DottedPatch.Proofs.Toml.Data
import DottedPatch.Proofs.Toml.Edits
import DottedPatch.Proofs.Toml.Entries
import DottedPatch.Proofs.Toml.Members
import DottedPatch.Proofs.Toml.Merges
import DottedPatch.Proofs.Toml.PathEdits
import DottedPatch.Proofs.Toml.Paths
import DottedPatch.Proofs.Toml.Reading
import DottedPatch.Proofs.Toml.Tables
import DottedPatch.Proofs.Toml.Touches
import DottedPatch.Proofs.Toml.Walks
import DottedPatch.Proofs.Toml.Apart
import DottedPatch.Proofs.Patch.Frames
import DottedPatch.Proofs.Toml.Writes
import DottedPatch.Schema.Casing
import DottedPatch.Schema.Check
import DottedPatch.Schema.LeafValue
import DottedPatch.Schema.Section
import DottedPatch.Settings.Basic
import DottedPatch.Settings.Environment
import DottedPatch.Settings.Layer
import DottedPatch.Settings.Loader
import DottedPatch.Settings.Template
import DottedPatch.Text.CaseTable
import DottedPatch.Text.Invisible
import DottedPatch.Text.Json
import DottedPatch.Text.Lowercase
import DottedPatch.Text.Pieces
import DottedPatch.Toml.Datetime
import DottedPatch.Toml.DatetimeText
import DottedPatch.Toml.Denotation
import DottedPatch.Toml.Edit
import DottedPatch.Toml.Entries
import DottedPatch.Toml.Item
import DottedPatch.Toml.NumberForm
import DottedPatch.Toml.Path
import DottedPatch.Toml.Printer
import DottedPatch.Toml.Quoting
import DottedPatch.Toml.Reader
import DottedPatch.Toml.Spacing
import DottedPatch.Toml.Statement
import DottedPatch.Toml.StringForm
import DottedPatch.Toml.Value
import DottedPatch.Proofs.Settings.Layers
import DottedPatch.Proofs.Settings.Resolution
import DottedPatch.Proofs.Settings.Strictness
import DottedPatch.Proofs.Disk.Files
import DottedPatch.Proofs.Action.Runs
import DottedPatch.Proofs.Config.Leaves
import DottedPatch.Proofs.Gateway.Saves
import DottedPatch.Proofs.Gateway.Bases
import DottedPatch.Proofs.Disk.Parents
import DottedPatch.Proofs.Action.Composition
import DottedPatch.Proofs.Toml.Scalars
import DottedPatch.Proofs.Toml.Relaid
import DottedPatch.Proofs.Toml.Chains
import DottedPatch.Proofs.Toml.Values
import DottedPatch.Proofs.Toml.Statements
import DottedPatch.Proofs.Toml.Sections
import DottedPatch.Proofs.Toml.Regular
import DottedPatch.Proofs.Toml.Printing
import DottedPatch.Proofs.Toml.RoundTrip
import DottedPatch.Proofs.Action.Unapplied
import DottedPatch.Proofs.Toml.Removals
import DottedPatch.Proofs.Config.Strays
import DottedPatch.Proofs.Config.Loading
import DottedPatch.Proofs.Gateway.Strays
import DottedPatch.Proofs.Patch.Keys
import DottedPatch.Proofs.Schema.Names
import DottedPatch.Proofs.Patch.Listing
import DottedPatch.Proofs.Patch.Casings
import DottedPatch.Proofs.Patch.Lookups
import DottedPatch.Proofs.Number.Numerals
import DottedPatch.Proofs.Patch.Integers
import DottedPatch.Proofs.Text.Surplus
import DottedPatch.Proofs.Patch.Items
import DottedPatch.Proofs.Patch.Pairs
import DottedPatch.Proofs.Text.Lines
import DottedPatch.Proofs.Patch.Writing
import DottedPatch.Proofs.Toml.Overlays
import DottedPatch.Proofs.Settings.Variables
import DottedPatch.Proofs.Settings.Environment
import DottedPatch.Proofs.Text.Trims
import DottedPatch.Proofs.Config.FileLines
import DottedPatch.Proofs.Config.KeyLines
