import TinyLang.Code.Basic
import TinyLang.Code.Compile
import TinyLang.Code.Literal
import TinyLang.Code.Printer
import TinyLang.Command.Catalog
import TinyLang.Command.Completion
import TinyLang.Command.Dump
import TinyLang.Command.Flag
import TinyLang.Command.Help
import TinyLang.Command.Invoke
import TinyLang.Command.Job
import TinyLang.Command.Program
import TinyLang.Command.Project
import TinyLang.Command.Source
import TinyLang.Config.Basic
import TinyLang.Config.Reader
import TinyLang.Config.Store
import TinyLang.Diagnostic
import TinyLang.Expr
import TinyLang.Finding
import TinyLang.Machine.Basic
import TinyLang.Machine.Run
import TinyLang.Machine.Session
import TinyLang.Main
import TinyLang.Native.Input
import TinyLang.Native.LineBuffer
import TinyLang.Native.NumberText
import TinyLang.Native.Support
import TinyLang.Number.Basic
import TinyLang.Number.Nearest
import TinyLang.Number.Numeral
import TinyLang.Number.Printer
import TinyLang.Number.Reader
import TinyLang.Number.Shortest
import TinyLang.Operator
import TinyLang.Path
import TinyLang.Program
import TinyLang.Proofs.Code.Blocks
import TinyLang.Proofs.Code.Cut
import TinyLang.Proofs.Code.Execution
import TinyLang.Proofs.Code.Globals
import TinyLang.Proofs.Code.Graph
import TinyLang.Proofs.Code.Layout
import TinyLang.Proofs.Code.Printer
import TinyLang.Proofs.Code.Reference
import TinyLang.Proofs.Code.Routine
import TinyLang.Proofs.Code.Simulation
import TinyLang.Proofs.Code.WellFormed
import TinyLang.Proofs.Command.Invoke
import TinyLang.Proofs.Command.Job
import TinyLang.Proofs.Command.Project
import TinyLang.Proofs.Command.Restart
import TinyLang.Proofs.Config.ReadBack
import TinyLang.Proofs.Config.Store
import TinyLang.Proofs.Except
import TinyLang.Proofs.Machine.Atomic
import TinyLang.Proofs.Machine.Findings
import TinyLang.Proofs.Machine.InputLines
import TinyLang.Proofs.Machine.Jumps
import TinyLang.Proofs.Machine.Limit
import TinyLang.Proofs.Machine.LimitedRuns
import TinyLang.Proofs.Machine.Lines
import TinyLang.Proofs.Machine.Observation
import TinyLang.Proofs.Machine.Perform
import TinyLang.Proofs.Machine.ReadBack
import TinyLang.Proofs.Machine.Relocation
import TinyLang.Proofs.Machine.Session
import TinyLang.Proofs.Machine.Stops
import TinyLang.Proofs.Machine.Trail
import TinyLang.Proofs.Machine.Unbounded
import TinyLang.Proofs.Native.Input
import TinyLang.Proofs.Native.LineBuffer
import TinyLang.Proofs.Native.NumberText
import TinyLang.Proofs.Native.ReadBack
import TinyLang.Proofs.Number.Grid
import TinyLang.Proofs.Number.Nearest
import TinyLang.Proofs.Number.Numeral
import TinyLang.Proofs.Number.Printer
import TinyLang.Proofs.Number.Reader
import TinyLang.Proofs.Number.Shortest
import TinyLang.Proofs.Path
import TinyLang.Proofs.Program.BlankLines
import TinyLang.Proofs.Program.Findings
import TinyLang.Proofs.Program.Grammar
import TinyLang.Proofs.Program.Labels
import TinyLang.Proofs.Program.Loaded
import TinyLang.Proofs.Program.Next
import TinyLang.Proofs.Program.Source
import TinyLang.Proofs.Table
import TinyLang.Proofs.Text.Encoding
import TinyLang.Proofs.Text.Integer
import TinyLang.Proofs.Text.Lines
import TinyLang.Proofs.Text.Quoted
import TinyLang.Proofs.Text.Runes
import TinyLang.Proofs.Text.Trim
import TinyLang.Proofs.Text.Words
import TinyLang.Proofs.Token.Cut
import TinyLang.Proofs.Token.Scanner
import TinyLang.Proofs.Version.Constraint
import TinyLang.Proofs.Version.Order
import TinyLang.Proofs.Version.ReadBack
import TinyLang.Proofs.Workspace.Basic
import TinyLang.Proofs.Workspace.Growth
import TinyLang.Proofs.Workspace.History
import TinyLang.Proofs.Yaml.Character
import TinyLang.Proofs.Yaml.Decode
import TinyLang.Proofs.Yaml.Document
import TinyLang.Proofs.Yaml.Event
import TinyLang.Proofs.Yaml.Input
import TinyLang.Proofs.Yaml.Node
import TinyLang.Proofs.Yaml.Scalar
import TinyLang.Proofs.Yaml.Token
import TinyLang.Proofs.Yaml.Value
import TinyLang.Proofs.Yaml.Writer
import TinyLang.Question
import TinyLang.Stmt
import TinyLang.Table
import TinyLang.Text.Base64
import TinyLang.Text.Basic
import TinyLang.Text.CodeRanges
import TinyLang.Text.Columns
import TinyLang.Text.Integer
import TinyLang.Text.Letter
import TinyLang.Text.Lowercase
import TinyLang.Text.Printable
import TinyLang.Text.Quoted
import TinyLang.Text.Rune
import TinyLang.Text.Space
import TinyLang.Text.Wildcard
import TinyLang.Token
import TinyLang.Url.Address
import TinyLang.Url.Basic
import TinyLang.Version
import TinyLang.Workspace.Basic
import TinyLang.Workspace.History
import TinyLang.Workspace.Ignore
import TinyLang.Yaml.Character
import TinyLang.Yaml.Data
import TinyLang.Yaml.Decode
import TinyLang.Yaml.Error
import TinyLang.Yaml.Event
import TinyLang.Yaml.Input
import TinyLang.Yaml.Node
import TinyLang.Yaml.Scalar
import TinyLang.Yaml.Tag
import TinyLang.Yaml.Timestamp
import TinyLang.Yaml.Token
import TinyLang.Yaml.Value
import TinyLang.Yaml.Writer
