import SiteServer.Address
import SiteServer.App
import SiteServer.CommandLine
import SiteServer.Config.Coding
import SiteServer.Config.Description
import SiteServer.Config.Options
import SiteServer.Decimal.Binary64
import SiteServer.Decimal.Shortest
import SiteServer.Decimal.Style
import SiteServer.Failure
import SiteServer.FileTree
import SiteServer.Intake
import SiteServer.Join
import SiteServer.Json.Basic
import SiteServer.Json.Number
import SiteServer.Json.Printer
import SiteServer.Json.Raw
import SiteServer.Json.Reader
import SiteServer.Json.Record
import SiteServer.Main
import SiteServer.Message.Exchange
import SiteServer.Message.Request
import SiteServer.Message.Response
import SiteServer.Message.Token
import SiteServer.Message.Uri
import SiteServer.Message.Wire
import SiteServer.Path
import SiteServer.Pipeline.Coding
import SiteServer.Pipeline.Event
import SiteServer.Pipeline.Run
import SiteServer.Pipeline.Stage
import SiteServer.Proofs.App.Lifecycle
import SiteServer.Proofs.Config.Overlay
import SiteServer.Proofs.Config.RoundTrip
import SiteServer.Proofs.FileTree
import SiteServer.Proofs.FileTree.Changes
import SiteServer.Proofs.FileTree.Outside
import SiteServer.Proofs.FileTree.Removal
import SiteServer.Proofs.FileTree.Texts
import SiteServer.Proofs.Intake.Parsing
import SiteServer.Proofs.Intake.Release
import SiteServer.Proofs.Join
import SiteServer.Proofs.Json.Printing
import SiteServer.Proofs.Json.Reading
import SiteServer.Proofs.Json.Tokens
import SiteServer.Proofs.Path.Canonical
import SiteServer.Proofs.Pipeline.Alike
import SiteServer.Proofs.Pipeline.Calls
import SiteServer.Proofs.Pipeline.Events
import SiteServer.Proofs.Pipeline.Executor
import SiteServer.Proofs.Pipeline.Transition
import SiteServer.Proofs.Route.FileMatcher
import SiteServer.Proofs.Route.Name
import SiteServer.Proofs.Route.Policy
import SiteServer.Proofs.Route.Registry
import SiteServer.Proofs.Site.Answer
import SiteServer.Proofs.Site.Answered
import SiteServer.Proofs.Site.Calm
import SiteServer.Proofs.Site.DataRequests
import SiteServer.Proofs.Site.Decided
import SiteServer.Proofs.Site.Dispatch
import SiteServer.Proofs.Site.FailedStages
import SiteServer.Proofs.Site.FailureAnswers
import SiteServer.Proofs.Site.Frame
import SiteServer.Proofs.Site.Independence
import SiteServer.Proofs.Site.Matching
import SiteServer.Proofs.Site.NotFound
import SiteServer.Proofs.Site.Stages
import SiteServer.Proofs.Site.StoredBodies
import SiteServer.Proofs.Site.TemporaryFiles
import SiteServer.Proofs.Site.Twins
import SiteServer.Proofs.Template.Bindings
import SiteServer.Proofs.Template.Comments
import SiteServer.Proofs.Template.Composition
import SiteServer.Proofs.Template.Cycles
import SiteServer.Proofs.Template.Directive
import SiteServer.Proofs.Template.Escaping
import SiteServer.Proofs.Template.Expression
import SiteServer.Proofs.Template.Extent
import SiteServer.Proofs.Template.Filling
import SiteServer.Proofs.Template.Grammar
import SiteServer.Proofs.Template.InPlace
import SiteServer.Proofs.Template.Includes
import SiteServer.Proofs.Template.Interchange
import SiteServer.Proofs.Template.JsonLiteral
import SiteServer.Proofs.Template.Literal
import SiteServer.Proofs.Template.Lookup
import SiteServer.Proofs.Template.LookupText
import SiteServer.Proofs.Template.PageText
import SiteServer.Proofs.Template.Printing
import SiteServer.Proofs.Template.References
import SiteServer.Proofs.Template.Refinement
import SiteServer.Proofs.Template.Rendering
import SiteServer.Proofs.Template.Roots
import SiteServer.Proofs.Template.Scanning
import SiteServer.Proofs.Template.Snapshot
import SiteServer.Proofs.Template.Splicing
import SiteServer.Proofs.Template.Termination
import SiteServer.Proofs.Template.Tokens
import SiteServer.Proofs.Template.TreeSemantics
import SiteServer.Proofs.Template.WrittenValues
import SiteServer.Proofs.Text.Boundary
import SiteServer.Proofs.Text.Markup
import SiteServer.Proofs.Text.Order
import SiteServer.Proofs.Text.Slice
import SiteServer.Proofs.Toml.Scalar
import SiteServer.Proofs.Toml.Sheet
import SiteServer.Proofs.Toml.Text
import SiteServer.Route.Coding
import SiteServer.Route.FileMatcher
import SiteServer.Route.Name
import SiteServer.Route.Registry
import SiteServer.Route.Resolver
import SiteServer.Route.Targets
import SiteServer.Site.Basic
import SiteServer.Site.ErrorPage
import SiteServer.Site.Neighbours
import SiteServer.Site.Stages
import SiteServer.Site.World
import SiteServer.StaticFile
import SiteServer.Template.Arguments
import SiteServer.Template.Compiler
import SiteServer.Template.Directive
import SiteServer.Template.Expansion
import SiteServer.Template.Failure
import SiteServer.Template.Lookup
import SiteServer.Template.Placeholder
import SiteServer.Template.Render
import SiteServer.Template.Tag
import SiteServer.Text.Blank
import SiteServer.Text.Boundary
import SiteServer.Text.Digits
import SiteServer.Text.Fold
import SiteServer.Text.Form
import SiteServer.Text.Hidden
import SiteServer.Text.Markup
import SiteServer.Text.Quoted
import SiteServer.Text.Split
import SiteServer.Text.Utf8
import SiteServer.Text.Uuid
import SiteServer.Toml.Reader
import SiteServer.Toml.Scalar
import SiteServer.Toml.Table
import SiteServer.Toml.Text
