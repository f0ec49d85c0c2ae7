import ApiTree.Command.Arguments
import ApiTree.Command.Files
import ApiTree.Command.Help
import ApiTree.Command.Location
import ApiTree.Command.Run
import ApiTree.Compilation.Document
import ApiTree.Compilation.Leaf
import ApiTree.Compilation.Merge
import ApiTree.Conformance.Check
import ApiTree.Conformance.Report
import ApiTree.Conformance.Violation
import ApiTree.Document.Basic
import ApiTree.Document.Reading
import ApiTree.Document.Writing
import ApiTree.Fault
import ApiTree.Json.Basic
import ApiTree.Json.Printer
import ApiTree.Json.Reader
import ApiTree.Log.Event
import ApiTree.Main
import ApiTree.Number.Arithmetic
import ApiTree.Number.Basic
import ApiTree.Number.Decimal
import ApiTree.Number.Double
import ApiTree.Number.Fraction
import ApiTree.Number.Mixed
import ApiTree.Number.Multiple
import ApiTree.Number.Numeral
import ApiTree.Number.Power
import ApiTree.Number.Shortest
import ApiTree.Pattern.Basic
import ApiTree.Pattern.Reader
import ApiTree.Proofs.Compilation.Answers
import ApiTree.Proofs.Compilation.Captures
import ApiTree.Proofs.Compilation.Conflict
import ApiTree.Proofs.Compilation.Inference
import ApiTree.Proofs.Compilation.Leaf
import ApiTree.Proofs.Compilation.Links
import ApiTree.Proofs.Compilation.NotFound
import ApiTree.Proofs.Compilation.Operations
import ApiTree.Proofs.Compilation.Overrides
import ApiTree.Proofs.Compilation.Passage
import ApiTree.Proofs.Compilation.Precedence
import ApiTree.Proofs.Compilation.Publication
import ApiTree.Proofs.Compilation.Reference
import ApiTree.Proofs.Compilation.Requests
import ApiTree.Proofs.Compilation.Schemas
import ApiTree.Proofs.Compilation.Security
import ApiTree.Proofs.Compilation.Summary
import ApiTree.Proofs.Compilation.Written
import ApiTree.Proofs.Conformance.Asked
import ApiTree.Proofs.Conformance.Breaches
import ApiTree.Proofs.Conformance.Comparison
import ApiTree.Proofs.Conformance.Confinement
import ApiTree.Proofs.Conformance.Decision
import ApiTree.Proofs.Conformance.Founded
import ApiTree.Proofs.Conformance.Guarded
import ApiTree.Proofs.Conformance.Independence
import ApiTree.Proofs.Conformance.Keywords
import ApiTree.Proofs.Conformance.Samples
import ApiTree.Proofs.Conformance.Satisfaction
import ApiTree.Proofs.Conformance.Sections
import ApiTree.Proofs.Conformance.Structural
import ApiTree.Proofs.Conformance.Termination
import ApiTree.Proofs.Conformance.Violations
import ApiTree.Proofs.Document.Reading
import ApiTree.Proofs.Document.Sameness
import ApiTree.Proofs.Json.Equality
import ApiTree.Proofs.Json.Values
import ApiTree.Proofs.Merge.Agreement
import ApiTree.Proofs.Merge.Associativity
import ApiTree.Proofs.Merge.Renaming
import ApiTree.Proofs.Merge.Spelling
import ApiTree.Proofs.Merge.United
import ApiTree.Proofs.Number.Multiple
import ApiTree.Proofs.Number.Value
import ApiTree.Proofs.Sample.Bounds
import ApiTree.Proofs.Sample.Draws
import ApiTree.Proofs.Sample.Encoded
import ApiTree.Proofs.Schema.Alternatives
import ApiTree.Proofs.Schema.Calls
import ApiTree.Proofs.Schema.Closure
import ApiTree.Proofs.Schema.Derivation
import ApiTree.Proofs.Schema.Dialect
import ApiTree.Proofs.Schema.Entries
import ApiTree.Proofs.Schema.Heads
import ApiTree.Proofs.Schema.Inline
import ApiTree.Proofs.Schema.Interruption
import ApiTree.Proofs.Schema.Listed
import ApiTree.Proofs.Schema.Naming
import ApiTree.Proofs.Schema.Order
import ApiTree.Proofs.Schema.OwnNames
import ApiTree.Proofs.Schema.Ownership
import ApiTree.Proofs.Schema.Reference
import ApiTree.Proofs.Schema.Registry
import ApiTree.Proofs.Schema.Reordering
import ApiTree.Proofs.Schema.Replay
import ApiTree.Proofs.Selection.Coverage
import ApiTree.Proofs.Selection.Embedding
import ApiTree.Proofs.Selection.Spelling
import ApiTree.Proofs.Selection.Tagging
import ApiTree.Proofs.Selection.Update
import ApiTree.Proofs.Shape.Bounds
import ApiTree.Proofs.Shape.Dialect
import ApiTree.Proofs.Shape.Heads
import ApiTree.Proofs.Shape.References
import ApiTree.Proofs.Table.Groups
import ApiTree.Proofs.Table.Merge
import ApiTree.Proofs.Ty.Distinct
import ApiTree.Proofs.Ty.Reach
import ApiTree.Proofs.Ty.Structural
import ApiTree.Proofs.Ty.Walk
import ApiTree.Route.Method
import ApiTree.Route.Node
import ApiTree.Route.Path
import ApiTree.Route.Tree
import ApiTree.Sample.Encoding
import ApiTree.Sample.Generator
import ApiTree.Sample.Instance
import ApiTree.Sample.Source
import ApiTree.Sample.Value
import ApiTree.Schema.Basic
import ApiTree.Schema.Definition
import ApiTree.Schema.Derivation
import ApiTree.Schema.OfShape
import ApiTree.Schema.Order
import ApiTree.Schema.Reference
import ApiTree.Schema.Registry
import ApiTree.Selection.Annotation
import ApiTree.Selection.Basic
import ApiTree.Selection.Update
import ApiTree.Settings.Basic
import ApiTree.Shape.Basic
import ApiTree.Shape.Flaw
import ApiTree.Shape.OfTy
import ApiTree.Shape.Word
import ApiTree.Source.Routes
import ApiTree.Source.Types
import ApiTree.Table
import ApiTree.Text.Base64
import ApiTree.Text.Case
import ApiTree.Text.CharClass
import ApiTree.Text.CharName
import ApiTree.Text.Cleaned
import ApiTree.Text.Half
import ApiTree.Text.Likeness
import ApiTree.Text.Pieces
import ApiTree.Text.Quoted
import ApiTree.Text.Uuid
import ApiTree.Time.Basic
import ApiTree.Time.Reading
import ApiTree.Ty.Basic
import ApiTree.Ty.Catalog
import ApiTree.Ty.Label
import ApiTree.Ty.Reach
import ApiTree.Validation.Checked
import ApiTree.Validation.Constraint
import ApiTree.Validation.Fit
import ApiTree.Validation.Typed
import ApiTree.Yaml.Basic
import ApiTree.Yaml.Lexer
import ApiTree.Yaml.Misread
import ApiTree.Yaml.Node
import ApiTree.Yaml.Printer
import ApiTree.Yaml.Scalar
import ApiTree.Yaml.Token
