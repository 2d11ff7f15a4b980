import Scim.Attribute.Basic
import Scim.Attribute.Characteristics
import Scim.Attribute.Comparable
import Scim.Attribute.Conversion
import Scim.Attribute.Representation
import Scim.Attribute.Validation
import Scim.Base64
import Scim.Catalog
import Scim.DateTime
import Scim.Decimal.Basic
import Scim.Decimal.Shortest
import Scim.Error
import Scim.Filter.Basic
import Scim.Filter.Check
import Scim.Filter.Evaluation
import Scim.Filter.Literal
import Scim.Filter.Masked
import Scim.Filter.Operator
import Scim.Filter.Parser
import Scim.Filter.Scope
import Scim.Filter.Token
import Scim.Issues.Basic
import Scim.Issues.Location
import Scim.Issues.Report
import Scim.Json.Basic
import Scim.Json.Number
import Scim.Json.Written
import Scim.Name
import Scim.Patch.Operation
import Scim.Patch.Path
import Scim.Patch.Request
import Scim.Proofs.Attribute.Alike
import Scim.Proofs.Attribute.Conformance
import Scim.Proofs.Attribute.Conversion
import Scim.Proofs.Attribute.Kinds
import Scim.Proofs.Attribute.Reading
import Scim.Proofs.Attribute.Validation
import Scim.Proofs.Attribute.Validators
import Scim.Proofs.Base64
import Scim.Proofs.Catalog
import Scim.Proofs.DateTime
import Scim.Proofs.Filter.Alike
import Scim.Proofs.Filter.Applications
import Scim.Proofs.Filter.Brackets
import Scim.Proofs.Filter.Canonical
import Scim.Proofs.Filter.CaseBlind
import Scim.Proofs.Filter.Elements
import Scim.Proofs.Filter.Grammar
import Scim.Proofs.Filter.Hiding
import Scim.Proofs.Filter.Layout
import Scim.Proofs.Filter.Mistakes
import Scim.Proofs.Filter.Printing
import Scim.Proofs.Filter.Quoting
import Scim.Proofs.Filter.Reading
import Scim.Proofs.Filter.Recording
import Scim.Proofs.Filter.Registered
import Scim.Proofs.Filter.Registration
import Scim.Proofs.Filter.Registry
import Scim.Proofs.Filter.RoundTrip
import Scim.Proofs.Filter.Soundness
import Scim.Proofs.Filter.Sources
import Scim.Proofs.Filter.Unmasking
import Scim.Proofs.Filter.Words
import Scim.Proofs.Issues
import Scim.Proofs.Issues.Confined
import Scim.Proofs.Issues.Everywhere
import Scim.Proofs.Issues.Filed
import Scim.Proofs.Issues.Halting
import Scim.Proofs.Issues.Merging
import Scim.Proofs.Issues.Only
import Scim.Proofs.Issues.Popping
import Scim.Proofs.Issues.Report
import Scim.Proofs.Issues.Within
import Scim.Proofs.Json.Number
import Scim.Proofs.Json.Paths
import Scim.Proofs.Patch.Forms
import Scim.Proofs.Patch.Matching
import Scim.Proofs.Patch.Operation
import Scim.Proofs.Patch.Path
import Scim.Proofs.Patch.PlainPath
import Scim.Proofs.Patch.Refusal
import Scim.Proofs.Patch.Request
import Scim.Proofs.Patch.Selection
import Scim.Proofs.Query.AttributeList
import Scim.Proofs.Query.Parameters
import Scim.Proofs.Query.Sorting
import Scim.Proofs.Record.Alike
import Scim.Proofs.Record.Corresponding
import Scim.Proofs.Record.Entries
import Scim.Proofs.Record.Index
import Scim.Proofs.Record.Nesting
import Scim.Proofs.Record.ReadBack
import Scim.Proofs.Record.Setting
import Scim.Proofs.Record.TakenOut
import Scim.Proofs.Reference
import Scim.Proofs.Schema.Alike
import Scim.Proofs.Schema.Conversion
import Scim.Proofs.Schema.Creation
import Scim.Proofs.Schema.Independence
import Scim.Proofs.Schema.Omission
import Scim.Proofs.Schema.Parts
import Scim.Proofs.Schema.Presence
import Scim.Proofs.Schema.Projection
import Scim.Proofs.Schema.Reading
import Scim.Proofs.Schema.References
import Scim.Proofs.Schema.Registry
import Scim.Proofs.Schema.Remainder
import Scim.Proofs.Schema.Returning
import Scim.Proofs.Schema.Validation
import Scim.Proofs.Text.Casing
import Scim.Proofs.Text.Quoted
import Scim.Proofs.Text.Sigma
import Scim.Proofs.Text.Splitting
import Scim.Proofs.Text.Trimming
import Scim.Proofs.Value.Congruence
import Scim.Proofs.Value.Equality
import Scim.Proofs.Value.Lossless
import Scim.Proofs.Value.Order
import Scim.Proofs.Value.Plain
import Scim.Query.AttributeList
import Scim.Query.Parameters
import Scim.Query.Sorting
import Scim.Record.Access
import Scim.Record.Indexed
import Scim.Record.Key
import Scim.Reference
import Scim.Schema.Basic
import Scim.Schema.Conversion
import Scim.Schema.Presence
import Scim.Schema.Projection
import Scim.Schema.Registry
import Scim.Schema.Representation
import Scim.Schema.Resolution
import Scim.Schema.Validation
import Scim.ServiceConfig
import Scim.Text.Blank
import Scim.Text.CaseData
import Scim.Text.Casing
import Scim.Text.Listing
import Scim.Text.Quoted
import Scim.Text.UnprintableData
import Scim.Value.Basic
import Scim.Value.Equality
import Scim.Value.Order
import Scim.Value.Plain
