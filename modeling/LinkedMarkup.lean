import LinkedMarkup.Binary64
import LinkedMarkup.Binary64.Layout
import LinkedMarkup.Binary64.Shortest
import LinkedMarkup.CommandLine.Command
import LinkedMarkup.CommandLine.Grammar
import LinkedMarkup.CommandLine.Run
import LinkedMarkup.CommandLine.Usage
import LinkedMarkup.CommandLine.Variable
import LinkedMarkup.Compiler
import LinkedMarkup.ContentKind
import LinkedMarkup.ContentModel
import LinkedMarkup.Context
import LinkedMarkup.Diagnostic
import LinkedMarkup.FilePath
import LinkedMarkup.FileTree
import LinkedMarkup.IdIndex
import LinkedMarkup.Json.Reader
import LinkedMarkup.Json.Token
import LinkedMarkup.Json.Writer
import LinkedMarkup.Main
import LinkedMarkup.Mapping.Conversion
import LinkedMarkup.Mapping.Error
import LinkedMarkup.Mapping.Reading
import LinkedMarkup.Mapping.Rule
import LinkedMarkup.Mapping.Selector
import LinkedMarkup.Mapping.Selector.Text
import LinkedMarkup.Mapping.Target
import LinkedMarkup.Markup
import LinkedMarkup.Mode
import LinkedMarkup.Node
import LinkedMarkup.Normalization
import LinkedMarkup.Numeral
import LinkedMarkup.Output.Adapter
import LinkedMarkup.Output.Registry
import LinkedMarkup.Pipeline
import LinkedMarkup.Position
import LinkedMarkup.Proofs.CommandVariables
import LinkedMarkup.Proofs.Mapping.ArrayLengths
import LinkedMarkup.Proofs.Mapping.Assignment
import LinkedMarkup.Proofs.Mapping.RuleOrder
import LinkedMarkup.Proofs.Mapping.SelectorText
import LinkedMarkup.Proofs.Mapping.TagSelection
import LinkedMarkup.Proofs.Mapping.TargetText
import LinkedMarkup.Proofs.Registry.AdapterLookup
import LinkedMarkup.Proofs.Registry.HandlerOrder
import LinkedMarkup.Proofs.Registry.Registrations
import LinkedMarkup.Proofs.Resolution.Accounts
import LinkedMarkup.Proofs.Resolution.Agreement
import LinkedMarkup.Proofs.Resolution.Ascent
import LinkedMarkup.Proofs.Resolution.Bookkeeping
import LinkedMarkup.Proofs.Resolution.Care
import LinkedMarkup.Proofs.Resolution.CircleReports
import LinkedMarkup.Proofs.Resolution.Circles
import LinkedMarkup.Proofs.Resolution.Conclusion
import LinkedMarkup.Proofs.Resolution.Courses
import LinkedMarkup.Proofs.Resolution.Customs
import LinkedMarkup.Proofs.Resolution.Dependencies
import LinkedMarkup.Proofs.Resolution.Doom
import LinkedMarkup.Proofs.Resolution.Escalation
import LinkedMarkup.Proofs.Resolution.Expansion
import LinkedMarkup.Proofs.Resolution.Fate
import LinkedMarkup.Proofs.Resolution.Fidelity
import LinkedMarkup.Proofs.Resolution.Growth
import LinkedMarkup.Proofs.Resolution.Keeping
import LinkedMarkup.Proofs.Resolution.Ledger
import LinkedMarkup.Proofs.Resolution.Lineage
import LinkedMarkup.Proofs.Resolution.Linearization
import LinkedMarkup.Proofs.Resolution.Meanings
import LinkedMarkup.Proofs.Resolution.Mirror
import LinkedMarkup.Proofs.Resolution.OpenReferences
import LinkedMarkup.Proofs.Resolution.Recording
import LinkedMarkup.Proofs.Resolution.Rehearsal
import LinkedMarkup.Proofs.Resolution.Restoration
import LinkedMarkup.Proofs.Resolution.Settled
import LinkedMarkup.Proofs.Resolution.Tracks
import LinkedMarkup.Proofs.Resolution.Untangled
import LinkedMarkup.Proofs.Retries
import LinkedMarkup.Proofs.Tag.InheritedContent
import LinkedMarkup.Proofs.Tag.Violations
import LinkedMarkup.Proofs.Tasks.Acquisition
import LinkedMarkup.Proofs.Tasks.Adequacy
import LinkedMarkup.Proofs.Tasks.Chronicle
import LinkedMarkup.Proofs.Tasks.Company
import LinkedMarkup.Proofs.Tasks.Conduct
import LinkedMarkup.Proofs.Tasks.Crew
import LinkedMarkup.Proofs.Tasks.DeadlockFreedom
import LinkedMarkup.Proofs.Tasks.Forking
import LinkedMarkup.Proofs.Tasks.Frame
import LinkedMarkup.Proofs.Tasks.Locks
import LinkedMarkup.Proofs.Tasks.Manning
import LinkedMarkup.Proofs.Tasks.Policy
import LinkedMarkup.Proofs.Tasks.Schedule
import LinkedMarkup.Proofs.Tasks.Siblings
import LinkedMarkup.Proofs.Tasks.SingleHandling
import LinkedMarkup.Proofs.Tasks.Timely
import LinkedMarkup.Proofs.Tasks.WaitGraph
import LinkedMarkup.Proofs.Text.JsonReading
import LinkedMarkup.Proofs.Text.JsonTokens
import LinkedMarkup.Proofs.Text.LetterCase
import LinkedMarkup.Proofs.Text.NormalForm
import LinkedMarkup.Proofs.Text.NormalLines
import LinkedMarkup.Proofs.Text.SteadyText
import LinkedMarkup.Proofs.Text.TextParts
import LinkedMarkup.Proofs.Text.UriText
import LinkedMarkup.Proofs.Tree.Ids
import LinkedMarkup.Proofs.Tree.Outline
import LinkedMarkup.Proofs.Tree.Places
import LinkedMarkup.Proofs.Tree.RawDocuments
import LinkedMarkup.Proofs.Tree.Selection
import LinkedMarkup.Proofs.Visitor.Concord
import LinkedMarkup.Proofs.Visitor.Cycles
import LinkedMarkup.Proofs.Visitor.Descent
import LinkedMarkup.Proofs.Visitor.FailurePositions
import LinkedMarkup.Proofs.Visitor.Frames
import LinkedMarkup.Proofs.Visitor.Hooks
import LinkedMarkup.Proofs.Visitor.InPlace
import LinkedMarkup.Proofs.Visitor.Passage
import LinkedMarkup.Proofs.Visitor.Passes
import LinkedMarkup.Proofs.Visitor.Reported
import LinkedMarkup.Proofs.Visitor.Rewriting
import LinkedMarkup.Proofs.Visitor.RunPolicy
import LinkedMarkup.Proofs.Visitor.Substitution
import LinkedMarkup.Proofs.Visitor.Termination
import LinkedMarkup.Proofs.Visitor.ValidatedRuns
import LinkedMarkup.Proofs.Visitor.Walks
import LinkedMarkup.Proofs.Visitor.Whereabouts
import LinkedMarkup.Proofs.Visitor.Wording
import LinkedMarkup.Protocol.File
import LinkedMarkup.Protocol.Handler
import LinkedMarkup.Protocol.Registry
import LinkedMarkup.Protocol.Web
import LinkedMarkup.ReferenceError
import LinkedMarkup.Resolution.Inheritance
import LinkedMarkup.Resolution.Pool
import LinkedMarkup.Resolution.Program
import LinkedMarkup.Resolution.Resolver
import LinkedMarkup.Resolution.State
import LinkedMarkup.Settings
import LinkedMarkup.Severity
import LinkedMarkup.Table
import LinkedMarkup.Tag.Definition
import LinkedMarkup.Tag.Reading
import LinkedMarkup.Tag.Registry
import LinkedMarkup.Tag.Validation
import LinkedMarkup.Text
import LinkedMarkup.Unicode.Alphanumeric
import LinkedMarkup.Unicode.Blank
import LinkedMarkup.Unicode.LowerCase
import LinkedMarkup.Uri
import LinkedMarkup.ValidationError
import LinkedMarkup.Value
import LinkedMarkup.Variables
import LinkedMarkup.Visitor.References
import LinkedMarkup.Visitor.Standard
import LinkedMarkup.Visitor.Walk
import LinkedMarkup.Web.Client
import LinkedMarkup.Web.Host
import LinkedMarkup.Web.Url
import LinkedMarkup.Xml.Cursor
import LinkedMarkup.Xml.Error
import LinkedMarkup.Xml.Text
import LinkedMarkup.Xml.Tree
import LinkedMarkup.Yaml.Block
import LinkedMarkup.Yaml.Cursor
import LinkedMarkup.Yaml.Quoted
import LinkedMarkup.Yaml.Record
import LinkedMarkup.Yaml.Scalar
import LinkedMarkup.Yaml.Token
import LinkedMarkup.Yaml.Tree
import LinkedMarkup.Yaml.Writer
