import TypedJson.Basic
import TypedJson.CommandLine.Arguments
import TypedJson.CommandLine.Command
import TypedJson.CommandLine.Rendering
import TypedJson.CommandLine.Run
import TypedJson.Conformance.Check
import TypedJson.Conformance.Finding
import TypedJson.Declaration.Basic
import TypedJson.Declaration.Decoding
import TypedJson.Documents
import TypedJson.Files.Access
import TypedJson.Files.Bytes
import TypedJson.Files.Glob
import TypedJson.Files.Tree
import TypedJson.Filter.Basic
import TypedJson.Filter.Evaluation
import TypedJson.Filter.Operation
import TypedJson.Filter.Reader
import TypedJson.Filter.Token
import TypedJson.Filter.Value
import TypedJson.Json.Decoding
import TypedJson.Json.Document
import TypedJson.Json.Pointer
import TypedJson.Json.Printer
import TypedJson.Json.Reader
import TypedJson.Json.Value
import TypedJson.Literal
import TypedJson.LoadError
import TypedJson.Main
import TypedJson.Number.Decimal
import TypedJson.Number.Double
import TypedJson.Number.Extended
import TypedJson.Pattern.Basic
import TypedJson.Pattern.Check
import TypedJson.Pattern.Property
import TypedJson.Pattern.Reader
import TypedJson.Pattern.Size
import TypedJson.Scalar.Date
import TypedJson.Scalar.Form
import TypedJson.Schema.Basic
import TypedJson.Schema.Building
import TypedJson.Schema.Describe
import TypedJson.Schema.Format
import TypedJson.Schema.Reference
import TypedJson.Text.Alphabetic
import TypedJson.Text.Lowercase
import TypedJson.Text.Printable
import TypedJson.Text.Word
import TypedJson.Types.Basic
import TypedJson.Types.Display
import TypedJson.Types.Interner
import TypedJson.Types.Key
import TypedJson.Types.Members
import TypedJson.Types.Query
import TypedJson.Types.Resolution
import TypedJson.Types.Universe
import TypedJson.Proofs.Search
import TypedJson.Proofs.Conformance
import TypedJson.Proofs.Verdict
import TypedJson.Proofs.Growth
import TypedJson.Proofs.Resolution
import TypedJson.Proofs.Lasting
import TypedJson.Proofs.Fuel
import TypedJson.Proofs.KeyEquality
import TypedJson.Proofs.Image
import TypedJson.Proofs.Coherence
import TypedJson.Proofs.Building
import TypedJson.Proofs.Identity
import TypedJson.Proofs.LeafKeys
import TypedJson.Proofs.Flatness
import TypedJson.Proofs.Inhabitation
import TypedJson.Proofs.Naming
import TypedJson.Proofs.Finished
import TypedJson.Proofs.Scalars
import TypedJson.Proofs.Admission
import TypedJson.Proofs.Refinement
import TypedJson.Proofs.Faithfulness
import TypedJson.Proofs.Branches
import TypedJson.Proofs.Lookup
import TypedJson.Proofs.Grounded
import TypedJson.Proofs.Unresolved
import TypedJson.Proofs.Sharing
import TypedJson.Proofs.Denotation
import TypedJson.Proofs.Listing
import TypedJson.Proofs.Likeness
import TypedJson.Proofs.Merging
import TypedJson.Proofs.Agreement
import TypedJson.Proofs.SameData
import TypedJson.Proofs.BackReferences
import TypedJson.Proofs.Guarded
import TypedJson.Proofs.Acceptance
import TypedJson.Proofs.Rounding
import TypedJson.Proofs.Shortest
import TypedJson.Proofs.NumberText
import TypedJson.Proofs.TextReading
import TypedJson.Proofs.LiteralText
import TypedJson.Proofs.RecordReading
import TypedJson.Proofs.SchemaFile
import TypedJson.Proofs.Answering
import TypedJson.Proofs.Provenance
import TypedJson.Proofs.Transcription
import TypedJson.Proofs.FiniteTexts
import TypedJson.Proofs.Ending
import TypedJson.Proofs.Termination
import TypedJson.Proofs.TypeNames
import TypedJson.Proofs.Bisimulation
import TypedJson.Proofs.Location
import TypedJson.Proofs.References
import TypedJson.Proofs.ErrorPaths
import TypedJson.Proofs.ReportFile
import TypedJson.Proofs.Designation
import TypedJson.Proofs.Enumeration
import TypedJson.Proofs.Lockstep
import TypedJson.Proofs.Purity
import TypedJson.Proofs.Nullability
import TypedJson.Proofs.Recording
import TypedJson.Proofs.Trials
import TypedJson.Proofs.DeclarationForm
import TypedJson.Proofs.DeclarationReading
import TypedJson.Proofs.KeyRelation
import TypedJson.Proofs.Renaming
import TypedJson.Proofs.RenamedTables
import TypedJson.Proofs.RenamedResolution
import TypedJson.Proofs.RenamedQuestions
import TypedJson.Proofs.RenamedKeys
import TypedJson.Proofs.RenamedSchemas
import TypedJson.Proofs.RenamedAcceptance
import TypedJson.Proofs.Comparison
import TypedJson.Proofs.Modes
import TypedJson.Proofs.Composition
import TypedJson.Proofs.Reordering
import TypedJson.Proofs.Retention
import TypedJson.Proofs.Regrouping
import TypedJson.Proofs.Ledger
import TypedJson.Proofs.ArrayReferences
import TypedJson.Proofs.NameOrder
import TypedJson.Proofs.Weaving
import TypedJson.Proofs.Founded
import TypedJson.Proofs.Linearization
import TypedJson.Proofs.Walk
import TypedJson.Proofs.KeyText
import TypedJson.Proofs.KeyDispatch
import TypedJson.Proofs.OwnItems
import TypedJson.Proofs.RecordKeys
import TypedJson.Proofs.Substitution
import TypedJson.Proofs.Instantiation
import TypedJson.Proofs.InstanceLists
import TypedJson.Proofs.Instances
import TypedJson.Proofs.CommandRuns
import TypedJson.Proofs.Encoding
import TypedJson.Proofs.LineFiles
import TypedJson.Proofs.Descent
import TypedJson.Proofs.KeyEnding
import TypedJson.Proofs.LiteralForm
import TypedJson.Proofs.Flattening
import TypedJson.Proofs.Course
import TypedJson.Proofs.Edits
import TypedJson.Proofs.Calls
import TypedJson.Proofs.Handles
import TypedJson.Proofs.Requests
