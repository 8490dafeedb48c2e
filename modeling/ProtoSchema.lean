import ProtoSchema.CommandLine.Arguments
import ProtoSchema.CommandLine.FileTree
import ProtoSchema.CommandLine.Run
import ProtoSchema.Conversion
import ProtoSchema.Descriptor.Declaration
import ProtoSchema.Descriptor.Load
import ProtoSchema.Descriptor.Reference
import ProtoSchema.Diagnostic
import ProtoSchema.GraphQL.NamedType
import ProtoSchema.GraphQL.Pass
import ProtoSchema.GraphQL.Printer
import ProtoSchema.GraphQL.TypeRef
import ProtoSchema.Json.Comments
import ProtoSchema.Json.Error
import ProtoSchema.Json.Numeral
import ProtoSchema.Json.Parser
import ProtoSchema.Json.Quoted
import ProtoSchema.Json.Value
import ProtoSchema.Main
import ProtoSchema.Name
import ProtoSchema.OrderedMap
import ProtoSchema.Registry
import ProtoSchema.Schema.Catalog
import ProtoSchema.Schema.Enumeration
import ProtoSchema.Schema.MapEntry
import ProtoSchema.Schema.Message
import ProtoSchema.Schema.Scalar
import ProtoSchema.Schema.Suggestion
import ProtoSchema.Text.Blank
import ProtoSchema.Text.EditDistance
import ProtoSchema.Text.Lines
import ProtoSchema.Text.Quote
import ProtoSchema.Text.Uppercase
import ProtoSchema.TypeScript.Comment
import ProtoSchema.TypeScript.Declaration
import ProtoSchema.TypeScript.Pass
import ProtoSchema.Proofs.Schema.Slots
import ProtoSchema.Proofs.GraphQL.Reachability
import ProtoSchema.Proofs.GraphQL.Serving
import ProtoSchema.Proofs.GraphQL.Calls
import ProtoSchema.Proofs.GraphQL.ConversionLog
import ProtoSchema.Proofs.GraphQL.Consistency
import ProtoSchema.Proofs.GraphQL.Materialization
import ProtoSchema.Proofs.GraphQL.Deferral
import ProtoSchema.Proofs.GraphQL.Definitions
import ProtoSchema.Proofs.GraphQL.Closure
import ProtoSchema.Proofs.GraphQL.Sources
import ProtoSchema.Proofs.GraphQL.Translation
import ProtoSchema.Proofs.GraphQL.Success
import ProtoSchema.Proofs.GraphQL.OrderIndependence
import ProtoSchema.Proofs.Outcome
import ProtoSchema.Proofs.Execution
import ProtoSchema.Proofs.TypeScript.Rendering
import ProtoSchema.Proofs.TypeScript.DeclarationOrder
import ProtoSchema.Proofs.TypeScript.Sources
import ProtoSchema.Proofs.TypeScript.Success
import ProtoSchema.Proofs.TypeScript.ListOrder
import ProtoSchema.Proofs.Descriptor.Loading
import ProtoSchema.Proofs.Descriptor.Atomicity
import ProtoSchema.Proofs.GraphQL.EntryTypes
import ProtoSchema.Proofs.TypeScript.EntryTexts
import ProtoSchema.Proofs.MapEntries
import ProtoSchema.Proofs.Schema.EntryNames
import ProtoSchema.Proofs.Json.DistinctKeys
import ProtoSchema.Proofs.Descriptor.Groups
import ProtoSchema.Proofs.GraphQL.UnknownReferences
import ProtoSchema.Proofs.TypeScript.UnknownReferences
import ProtoSchema.Proofs.UnknownReferences
import ProtoSchema.Proofs.TypeScript.Warnings
import ProtoSchema.Proofs.TypeScript.Identifiers
import ProtoSchema.Proofs.Descriptor.LoadOrder
import ProtoSchema.Proofs.Schema.Repetition
import ProtoSchema.Proofs.Repetition
import ProtoSchema.Proofs.Acceptance
import ProtoSchema.Proofs.GraphQL.Growth
import ProtoSchema.Proofs.GraphQL.SingleConversion
import ProtoSchema.Proofs.Descriptor.DocumentOrder
import ProtoSchema.Proofs.Descriptor.ObjectTree
import ProtoSchema.Proofs.Descriptor.Membership
import ProtoSchema.Proofs.Descriptor.WellShaped
import ProtoSchema.Proofs.Descriptor.NestedOrder
import ProtoSchema.Proofs.Descriptor.Scoping
import ProtoSchema.Proofs.GraphQL.Integer64
import ProtoSchema.Proofs.TypeScript.Integer64
import ProtoSchema.Proofs.Integer64
import ProtoSchema.Proofs.GraphQL.BuiltinNames
import ProtoSchema.Proofs.Preparation
import ProtoSchema.Proofs.TypeScript.Properties
import ProtoSchema.Proofs.MessageShape
import ProtoSchema.Proofs.Text.Trimming
import ProtoSchema.Proofs.Text.Lines
import ProtoSchema.Proofs.GraphQL.BlockStrings
import ProtoSchema.Proofs.GraphQL.Descriptions
import ProtoSchema.Proofs.Text.Indentation
import ProtoSchema.Proofs.TypeScript.CommentDelimiters
import ProtoSchema.Proofs.TypeScript.Normalization
import ProtoSchema.Proofs.Descriptor.SyntaxErrors
import ProtoSchema.Proofs.Schema.Suggestion
import ProtoSchema.Proofs.Text.EditDistance
import ProtoSchema.Proofs.CommandLine.Interleaving
import ProtoSchema.Proofs.BuiltMessages
import ProtoSchema.Proofs.Descriptor.WrittenFields
import ProtoSchema.Proofs.Descriptor.Presence
