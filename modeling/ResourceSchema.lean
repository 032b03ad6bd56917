import ResourceSchema.Data
import ResourceSchema.Definition.Basic
import ResourceSchema.Definition.Document
import ResourceSchema.Definition.Printer
import ResourceSchema.Definition.Reader
import ResourceSchema.Diagnostic
import ResourceSchema.Host.Shape
import ResourceSchema.Json.Basic
import ResourceSchema.Json.Lexeme
import ResourceSchema.Json.Printer
import ResourceSchema.Json.Reader
import ResourceSchema.Keyed
import ResourceSchema.Number.Basic
import ResourceSchema.Number.Binary64
import ResourceSchema.Number.Decimal
import ResourceSchema.Number.Shortest
import ResourceSchema.Path.Basic
import ResourceSchema.Path.Error
import ResourceSchema.Path.Expr
import ResourceSchema.Path.Parser
import ResourceSchema.Planning
import ResourceSchema.Proofs.Data.Basic
import ResourceSchema.Proofs.Data.Matches
import ResourceSchema.Proofs.Data.ReadBack
import ResourceSchema.Proofs.Data.Reads
import ResourceSchema.Proofs.Data.Writes
import ResourceSchema.Proofs.Definition.Build
import ResourceSchema.Proofs.Definition.Document
import ResourceSchema.Proofs.Definition.Inverse
import ResourceSchema.Proofs.Definition.Node
import ResourceSchema.Proofs.Definition.Text
import ResourceSchema.Proofs.Except
import ResourceSchema.Proofs.Json.Lexeme
import ResourceSchema.Proofs.Json.ReadBack
import ResourceSchema.Proofs.Keyed
import ResourceSchema.Proofs.Number.Decimal
import ResourceSchema.Proofs.Number.Integer
import ResourceSchema.Proofs.Obtainable
import ResourceSchema.Proofs.Path.Expr
import ResourceSchema.Proofs.Path.Grammar
import ResourceSchema.Proofs.Path.Pruning
import ResourceSchema.Proofs.Path.Text
import ResourceSchema.Proofs.Planning.Basic
import ResourceSchema.Proofs.Planning.Carried
import ResourceSchema.Proofs.Planning.Configured
import ResourceSchema.Proofs.Planning.Inert
import ResourceSchema.Proofs.Planning.Kept
import ResourceSchema.Proofs.Planning.Level
import ResourceSchema.Proofs.Planning.Places
import ResourceSchema.Proofs.Planning.Replaced
import ResourceSchema.Proofs.Planning.Requests
import ResourceSchema.Proofs.Planning.Typed
import ResourceSchema.Proofs.Planning.Unchanged
import ResourceSchema.Proofs.Planning.Untouched
import ResourceSchema.Proofs.Planning.Valid
import ResourceSchema.Proofs.Planning.WellFormed
import ResourceSchema.Proofs.Recursion
import ResourceSchema.Proofs.Requests
import ResourceSchema.Proofs.Schema.Built
import ResourceSchema.Proofs.Schema.Classification
import ResourceSchema.Proofs.Schema.Expr
import ResourceSchema.Proofs.Schema.Kind
import ResourceSchema.Proofs.Schema.Member
import ResourceSchema.Proofs.Schema.Resolution
import ResourceSchema.Proofs.Schema.Shape
import ResourceSchema.Proofs.Schema.Upgrade
import ResourceSchema.Proofs.Ty.Basic
import ResourceSchema.Proofs.Validation.Basic
import ResourceSchema.Proofs.Validation.Combinations
import ResourceSchema.Proofs.Validation.Counts
import ResourceSchema.Proofs.Validation.Findings
import ResourceSchema.Proofs.Validation.Upgrade
import ResourceSchema.Proofs.Validation.Visits
import ResourceSchema.Proofs.Value.Agreement
import ResourceSchema.Proofs.Value.Basic
import ResourceSchema.Proofs.Value.Build
import ResourceSchema.Proofs.Value.Conformance
import ResourceSchema.Proofs.Value.Document
import ResourceSchema.Proofs.Value.Equality
import ResourceSchema.Proofs.Value.Frame
import ResourceSchema.Proofs.Value.Interchange
import ResourceSchema.Proofs.Value.Matching
import ResourceSchema.Proofs.Value.Place
import ResourceSchema.Proofs.Value.Position
import ResourceSchema.Proofs.Value.ReadBack
import ResourceSchema.Proofs.Value.SecondWrite
import ResourceSchema.Proofs.Value.Step
import ResourceSchema.Proofs.Value.Traversal
import ResourceSchema.Proofs.Value.Typing
import ResourceSchema.Proofs.Value.Widening
import ResourceSchema.Proofs.Value.Writable
import ResourceSchema.Proofs.Value.Write
import ResourceSchema.Proofs.Value.WriteBack
import ResourceSchema.Schema.Basic
import ResourceSchema.Schema.Behaviour
import ResourceSchema.Schema.Diff
import ResourceSchema.Schema.Draft
import ResourceSchema.Schema.Error
import ResourceSchema.Schema.Node
import ResourceSchema.Schema.Visit
import ResourceSchema.Text.Alphanumeric
import ResourceSchema.Text.Basic
import ResourceSchema.Text.Quoted
import ResourceSchema.Ty.Basic
import ResourceSchema.Ty.Step
import ResourceSchema.Validation
import ResourceSchema.Value.Access
import ResourceSchema.Value.Basic
import ResourceSchema.Value.Build
import ResourceSchema.Value.Document
import ResourceSchema.Value.Error
import ResourceSchema.Yaml.Block
import ResourceSchema.Yaml.Place
import ResourceSchema.Yaml.Plain
import ResourceSchema.Yaml.Printer
import ResourceSchema.Yaml.Quoted
import ResourceSchema.Yaml.Reader
import ResourceSchema.Yaml.Scalar
