import Stencil.Text.Basic
import Stencil.Text.Blank
import Stencil.Text.Control
import Stencil.Text.Order
import Stencil.Text.Replace
import Stencil.Text.Utf8
import Stencil.Keyed
import Stencil.Log
import Stencil.Split
import Stencil.Path
import Stencil.IoError
import Stencil.Placeholder.Name
import Stencil.Placeholder.Delimiters
import Stencil.Placeholder.Token
import Stencil.Placeholder.Unresolved
import Stencil.Html.Escape
import Stencil.Variables.Store
import Stencil.Variables.Definition
import Stencil.Render
import Stencil.Glob.Pattern
import Stencil.Glob.Match
import Stencil.Markup.Reference
import Stencil.Markup.Attribute
import Stencil.Markup.Scope
import Stencil.Markup.Event
import Stencil.Markup.Node
import Stencil.Markup.Content
import Stencil.Catalog.Fault
import Stencil.Catalog.Scan
import Stencil.Catalog.Settings
import Stencil.Catalog.Basic
import Stencil.Job
import Stencil.Failure
import Stencil.Report
import Stencil.Menu
import Stencil.CommandLine.Grammar
import Stencil.CommandLine.Reading
import Stencil.CommandLine.Invocation
import Stencil.Disk.Basic
import Stencil.Disk.Route
import Stencil.Disk.Files
import Stencil.Workspace.Basic
import Stencil.Workspace.Storage
import Stencil.Workspace.Faults
import Stencil.Run
import Stencil.Json
import Stencil.Console
import Stencil.Desk
import Stencil.Fixture
import Stencil.Main
import Stencil.Proofs.Replacement
import Stencil.Proofs.Separation
import Stencil.Proofs.Substitution
import Stencil.Proofs.Search
import Stencil.Proofs.Undefined
import Stencil.Proofs.Scanning
import Stencil.Proofs.Likeness
import Stencil.Proofs.Tracing
import Stencil.Proofs.History
import Stencil.Proofs.DiskWriting
import Stencil.Proofs.AtDesk
import Stencil.Proofs.Watched
import Stencil.Proofs.Verification
import Stencil.Proofs.ExitCode
import Stencil.Proofs.RunHistory
import Stencil.Proofs.FileNames
import Stencil.Proofs.Halting
import Stencil.Proofs.Routes
import Stencil.Proofs.FolderMaking
import Stencil.Proofs.Listing
import Stencil.Proofs.Replay
import Stencil.Proofs.Decoding
import Stencil.Proofs.Outputs
import Stencil.Proofs.Rejection
import Stencil.Proofs.ReadBack
import Stencil.Proofs.References
import Stencil.Proofs.Injection
import Stencil.Proofs.Unescaping
import Stencil.Proofs.MenuInput
import Stencil.Proofs.CatalogLoading
import Stencil.Proofs.Choosing
import Stencil.Proofs.Selecting
import Stencil.Proofs.Printing
import Stencil.Proofs.FaultyReplay
import Stencil.Proofs.Filling
import Stencil.Proofs.Fitting
import Stencil.Proofs.Succeeding
import Stencil.Proofs.Reordering
import Stencil.Proofs.Repeating
import Stencil.Proofs.Nesting
import Stencil.Proofs.Forwarding
import Stencil.Proofs.Parents
import Stencil.Proofs.WrittenMarkup
import Stencil.Proofs.WrittenSettings
import Stencil.Proofs.FixtureCatalog
import Stencil.Proofs.CleanTexts
import Stencil.Proofs.LineByLine
import Stencil.Proofs.FirstFault
import Stencil.Proofs.Layout
import Stencil.Proofs.Redefinition
import Stencil.Proofs.NameAlphabet
import Stencil.Proofs.NamelessKeys
import Stencil.Proofs.Acceptance
import Stencil.Proofs.Enumeration
import Stencil.Proofs.Prompting
import Stencil.Proofs.DottedPaths
import Stencil.Proofs.DottedFolders
import Stencil.Proofs.Respelling
import Stencil.Proofs.CatalogFolder
