import TemplateGate.Text.Basic
import TemplateGate.Text.Utf8
import TemplateGate.Dictionary
import TemplateGate.Decimal.Double
import TemplateGate.Decimal.Shortest
import TemplateGate.Json.Value
import TemplateGate.Json.Printer
import TemplateGate.Json.Token
import TemplateGate.Json.Lexer
import TemplateGate.Json.Reader
import TemplateGate.Json.Shape
import TemplateGate.Sha256
import TemplateGate.Timestamp
import TemplateGate.Check
import TemplateGate.Finding
import TemplateGate.Resource
import TemplateGate.Naming
import TemplateGate.Cost
import TemplateGate.Security.Rule
import TemplateGate.Security.Builtin
import TemplateGate.Policy
import TemplateGate.Report.Basic
import TemplateGate.Evaluation
import TemplateGate.Config.Basic
import TemplateGate.Config.Profile
import TemplateGate.Config.Resolve
import TemplateGate.Explanation
import TemplateGate.Report.Codec
import TemplateGate.Report.Text
import TemplateGate.Report.WorkflowCommand
import TemplateGate.Schema
import TemplateGate.Toml.Numeral
import TemplateGate.Toml.Value
import TemplateGate.Toml.Scalar
import TemplateGate.Toml.Quoted
import TemplateGate.Toml.Table
import TemplateGate.Toml.Reader
import TemplateGate.Config.Decode
import TemplateGate.Host
import TemplateGate.Path
import TemplateGate.Template.Failure
import TemplateGate.Template.Document
import TemplateGate.Template.Compiler
import TemplateGate.Gate
import TemplateGate.Machine.FileTree
import TemplateGate.Machine.Basic
import TemplateGate.CommandLine.Arguments
import TemplateGate.CommandLine.Run
import TemplateGate.Main
import TemplateGate.Proofs.Dictionary
import TemplateGate.Proofs.Json.Members
import TemplateGate.Proofs.Json.Path
import TemplateGate.Proofs.Json.Zero
import TemplateGate.Proofs.Json.Edit
import TemplateGate.Proofs.Config.Effective
import TemplateGate.Proofs.Config.Stepwise
import TemplateGate.Proofs.Compliance
import TemplateGate.Proofs.Gate
import TemplateGate.Proofs.Text.Utf8
import TemplateGate.Proofs.Sites
import TemplateGate.Proofs.Tightening
import TemplateGate.Proofs.Text.Scan
import TemplateGate.Proofs.Report.CommandReader
import TemplateGate.Proofs.Json.Grammar
import TemplateGate.Proofs.Json.Lexer
import TemplateGate.Proofs.Json.Reader
import TemplateGate.Proofs.Json.Numeral
import TemplateGate.Proofs.Json.Tokens
import TemplateGate.Proofs.Json.Words
import TemplateGate.Proofs.Json.Exact
import TemplateGate.Proofs.Json.Shape
import TemplateGate.Proofs.Timestamp
import TemplateGate.Proofs.Report.Codec
import TemplateGate.Proofs.ReadBack
import TemplateGate.Proofs.Fingerprint
import TemplateGate.Proofs.Isolation
import TemplateGate.Proofs.CommandLine.Console
import TemplateGate.Proofs.Json.Normal
import TemplateGate.Proofs.Report.Normalize
import TemplateGate.Proofs.Remedy
import TemplateGate.Proofs.Abbreviations
import TemplateGate.Proofs.Stages
import TemplateGate.Proofs.Config.Resolution
import TemplateGate.Proofs.Config.Pinned
import TemplateGate.Proofs.Config.JsonForm
import TemplateGate.Proofs.Security.Registry
import TemplateGate.Proofs.Security.Builtin
import TemplateGate.Proofs.Origin
import TemplateGate.Proofs.Template.Document
import TemplateGate.Proofs.Report.Surfaces
import TemplateGate.Proofs.CommandLine.Output
import TemplateGate.Proofs.CommandLine.Course
import TemplateGate.Proofs.Machine.Evaluation
import TemplateGate.Proofs.CommandLine.Status
import TemplateGate.Proofs.Machine.Files
import TemplateGate.Proofs.Security.Payload
import TemplateGate.Proofs.Tally
import TemplateGate.Proofs.SelfConsistency
import TemplateGate.Proofs.Template.Compiler
import TemplateGate.Proofs.Property
import TemplateGate.Proofs.Json.Object
import TemplateGate.Proofs.Abbreviations.Order
import TemplateGate.Proofs.Explanation
