import TypeGraph.Binary64
import TypeGraph.Binary64.Shortest
import TypeGraph.Config
import TypeGraph.Config.Outline
import TypeGraph.Exchange
import TypeGraph.Introspection
import TypeGraph.Introspection.Draft
import TypeGraph.Introspection.Query
import TypeGraph.Json
import TypeGraph.Json.Reader
import TypeGraph.Json.Writer
import TypeGraph.Listing
import TypeGraph.Loading
import TypeGraph.Main
import TypeGraph.Name
import TypeGraph.Reference
import TypeGraph.Renaming.Apply
import TypeGraph.Renaming.Arrangement
import TypeGraph.Renaming.Run
import TypeGraph.Schema
import TypeGraph.Schema.Default
import TypeGraph.Schema.Flatten
import TypeGraph.Schema.Literal
import TypeGraph.Schema.Standard
import TypeGraph.Sdl.Build
import TypeGraph.Sdl.Document
import TypeGraph.Sdl.Parser
import TypeGraph.Sdl.Rules
import TypeGraph.Sdl.Token
import TypeGraph.Table
import TypeGraph.Table.IndexFirst
import TypeGraph.Text
import TypeGraph.Validation
import TypeGraph.Proofs.Lookup
import TypeGraph.Proofs.Renaming.Seats
import TypeGraph.Proofs.Renaming.Result
import TypeGraph.Proofs.Place
import TypeGraph.Proofs.Renaming.Types
import TypeGraph.Proofs.Renaming.Dangling
import TypeGraph.Proofs.Renaming.Roots
import TypeGraph.Proofs.Renaming.Order
import TypeGraph.Proofs.Renaming.Retired
import TypeGraph.Proofs.Renaming.Ledger
import TypeGraph.Proofs.Renaming.Slots
import TypeGraph.Proofs.Renaming.Told
import TypeGraph.Proofs.Renaming.Walks
import TypeGraph.Proofs.Renaming.Twice
import TypeGraph.Proofs.Renaming.OneByOne
import TypeGraph.Proofs.Renaming.FollowedBy
import TypeGraph.Proofs.RecordOrder
import TypeGraph.Proofs.Renaming.Missing
import TypeGraph.Proofs.Renaming.Reordered
import TypeGraph.Proofs.Renaming.RootNames
import TypeGraph.Proofs.Renaming.Undo
import TypeGraph.Proofs.Validation.Expr
import TypeGraph.Proofs.Renaming.Merged
import TypeGraph.Proofs.Name
import TypeGraph.Proofs.Alike
import TypeGraph.Proofs.Reference.Marks
import TypeGraph.Proofs.Reference.Grammar
import TypeGraph.Proofs.Reference.NormalForm
import TypeGraph.Proofs.Outline.Reading
import TypeGraph.Proofs.Outline.RoundTrip
import TypeGraph.Proofs.Outline.Records
import TypeGraph.Proofs.Schema.Spelling
import TypeGraph.Proofs.Schema.Held
import TypeGraph.Proofs.Schema.Outline
import TypeGraph.Proofs.Schema.Account
import TypeGraph.Proofs.Schema.Wrappers
import TypeGraph.Proofs.Validation.Pairs
import TypeGraph.Proofs.Validation.Texts
import TypeGraph.Proofs.Listing.Named
import TypeGraph.Proofs.Remote.Stages
import TypeGraph.Proofs.Listing.Lines
import TypeGraph.Proofs.Listing.Report
