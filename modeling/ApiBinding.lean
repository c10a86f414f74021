import ApiBinding.Operation.Data
import ApiBinding.Options.Source
import ApiBinding.Record.Equations
import ApiBinding.Reference.Equations
import ApiBinding.Synthesis.Equations
import ApiBinding.Value.Equations
import ApiBinding.Proofs.Synthesis.Growth
import ApiBinding.Proofs.Value.Parts
import ApiBinding.Proofs.Schema.Depth
import ApiBinding.Proofs.Schema.Shape
import ApiBinding.Proofs.Synthesis.Depth
import ApiBinding.Proofs.Synthesis.Termination
import ApiBinding.Proofs.Record.Tidy
import ApiBinding.Proofs.Synthesis.Closure
import ApiBinding.Proofs.Operation.Closure
import ApiBinding.Proofs.Synthesis.Discovery
import ApiBinding.Proofs.TypeExpr.Grouping
import ApiBinding.Proofs.TypeExpr.Reader
import ApiBinding.Proofs.TypeExpr.RoundTrip
import ApiBinding.Proofs.Synthesis.Buildable
import ApiBinding.Proofs.Synthesis.Content
import ApiBinding.Proofs.Synthesis.Need
import ApiBinding.Proofs.Operation.Need
import ApiBinding.Proofs.Schema.Extension
import ApiBinding.Proofs.Synthesis.Extension
import ApiBinding.Proofs.Operation.Extension
import ApiBinding.Proofs.Schema.Moved
import ApiBinding.Proofs.Synthesis.Moved
import ApiBinding.Proofs.Operation.Moved
import ApiBinding.Proofs.Operation.Upgrade
import ApiBinding.Proofs.Operation.Contract
import ApiBinding.Proofs.Outcome
import ApiBinding.Proofs.Schema.Inheritance
import ApiBinding.Proofs.Synthesis.Added
import ApiBinding.Proofs.Operation.Added
import ApiBinding.Proofs.Operation.Placement
import ApiBinding.Proofs.Operation.FieldNames
import ApiBinding.Proofs.Operation.Files
import ApiBinding.Proofs.Operation.Answer
import ApiBinding.Proofs.Synthesis.Calls
import ApiBinding.Proofs.Synthesis.Rendering
import ApiBinding.Proofs.Name.Identifier
import ApiBinding.Proofs.Operation.Names
import ApiBinding.Proofs.Value.Cleared
import ApiBinding.Proofs.Schema.Cleared
import ApiBinding.Proofs.Synthesis.Cleared
import ApiBinding.Proofs.Operation.Cleared
import ApiBinding.Proofs.Reference.Cleared
import ApiBinding.Proofs.Operation.Merge
import ApiBinding.Proofs.Operation.Thinning
import ApiBinding.Proofs.Operation.Thinned
import ApiBinding.Proofs.Operation.Grouping
import ApiBinding.Proofs.Name.Declarable
import ApiBinding.Proofs.Operation.Placeholder
import ApiBinding.Proofs.Operation.BodyParameter
import ApiBinding.Proofs.Synthesis.Promotion
import ApiBinding.Proofs.Schema.Acyclic
import ApiBinding.Proofs.Schema.RecordShape
import ApiBinding.Proofs.Schema.Unguarded
import ApiBinding.Proofs.Schema.Gathering
import ApiBinding.Proofs.Schema.Obligation
import ApiBinding.Proofs.Synthesis.RequiredField
import ApiBinding.Proofs.Schema.Hole
import ApiBinding.Proofs.Schema.Alias
import ApiBinding.Proofs.Text.Pieces
import ApiBinding.Proofs.Number.Integer
import ApiBinding.Proofs.Reference.RoundTrip
import ApiBinding.Proofs.Reference.Index
import ApiBinding.Proofs.Reference.Trail
import ApiBinding.Proofs.Synthesis.Simulation
import ApiBinding.Proofs.Synthesis.AliasChain
import ApiBinding.Proofs.Record.History
import ApiBinding.Proofs.TypeExpr.Enumeration
import ApiBinding.Proofs.TypeExpr.InlineObject
import ApiBinding.Proofs.Operation.FileMark
import ApiBinding.Proofs.Operation.FormData
import ApiBinding.Proofs.Reference.Around
import ApiBinding.Proofs.Operation.Selection
import ApiBinding.Proofs.Operation.Unlisted
import ApiBinding.Proofs.Validation.Accepted
import ApiBinding.Proofs.Options.Precedence
import ApiBinding.Proofs.Validation.DataForm
import ApiBinding.Proofs.Text.Case
import ApiBinding.Proofs.Name.CamelCase
