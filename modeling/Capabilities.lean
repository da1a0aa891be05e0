import Capabilities.Keyed
import Capabilities.Text.Grid
import Capabilities.Text.Quoted
import Capabilities.Script.Parse
import Capabilities.Docs.Description
import Capabilities.Docs.Preceding
import Capabilities.Module.Declaration
import Capabilities.Module.Entry
import Capabilities.Types.Scope
import Capabilities.Inference.File
import Capabilities.Json.Reader
import Capabilities.Json.Printer
import Capabilities.Host.Exchange
import Capabilities.Resolver.Plugin
import Capabilities.Session.Report
import Capabilities.Workspace.Discovery
import Capabilities.Workspace.Derivation
import Capabilities.CommandLine.Check
import Capabilities.Main
import Capabilities.Proofs.Types.Operations
import Capabilities.Proofs.Types.Embedding
import Capabilities.Proofs.Steps
import Capabilities.Proofs.Inference.Twins
import Capabilities.Proofs.Inference.Constructs
import Capabilities.Proofs.Inference.File
import Capabilities.Proofs.Host.Paths
import Capabilities.Proofs.Resolver.State
import Capabilities.Proofs.Resolver.Provision
import Capabilities.Proofs.Types.Territory
import Capabilities.Proofs.Types.Graph
import Capabilities.Proofs.Resolver.Scheduling
import Capabilities.Proofs.Resolver.Attachment
import Capabilities.Proofs.Resolver.Consumer
import Capabilities.Proofs.Script.Identity
import Capabilities.Proofs.Script.Tidy
import Capabilities.Proofs.Script.Region
import Capabilities.Proofs.Script.Grammar.Statement
import Capabilities.Proofs.Resolver.Invariant
import Capabilities.Proofs.Resolver.Ready
import Capabilities.Proofs.Resolver.Pass
import Capabilities.Proofs.Resolver.Registration
import Capabilities.Proofs.Resolver.Loading
import Capabilities.Proofs.Session.Hosting
import Capabilities.Proofs.Session.Run
import Capabilities.Proofs.Session.Analysis
import Capabilities.Proofs.Session.History
import Capabilities.Proofs.Session.Chronicle
import Capabilities.Proofs.Session.Renaming
import Capabilities.Proofs.Session.Incremental
import Capabilities.Proofs.Workspace.Derivation
import Capabilities.Proofs.Workspace.RoundTrip
import Capabilities.Proofs.Workspace.Root
import Capabilities.Proofs.Workspace.Discovery
import Capabilities.Proofs.Session.Closure
import Capabilities.Proofs.Session.Actions
import Capabilities.Proofs.Session.Providers
import Capabilities.Proofs.Resolver.Account
import Capabilities.Proofs.Session.Account
import Capabilities.Proofs.Host.Exchange
import Capabilities.Proofs.Host.Dialogue
import Capabilities.Proofs.Host.Protocol
import Capabilities.Proofs.Host.Interleaving
import Capabilities.Proofs.Session.Serving
import Capabilities.Proofs.Resolver.Visiting
import Capabilities.Proofs.Session.Queue
import Capabilities.Proofs.Session.Course
import Capabilities.Proofs.Session.Demand
import Capabilities.Proofs.Session.Settling
import Capabilities.Proofs.Session.Order
import Capabilities.Proofs.Resolver.Validity
import Capabilities.Proofs.Session.Validity
import Capabilities.Proofs.Resolver.Warnings
import Capabilities.Proofs.Session.Warnings
import Capabilities.Proofs.Session.Stages
import Capabilities.Proofs.Resolver.Provenance
import Capabilities.Proofs.Session.Provenance
import Capabilities.Proofs.Types.Arena
import Capabilities.Proofs.Types.Additions
import Capabilities.Proofs.Module.Calls
import Capabilities.Proofs.Resolver.Attribution
import Capabilities.Proofs.Resolver.Freezing
import Capabilities.Proofs.Session.Aliases
import Capabilities.Proofs.Session.Inferred
import Capabilities.Proofs.Inference.Boundaries
import Capabilities.Proofs.Resolver.Literals
import Capabilities.Proofs.Text.Blank
import Capabilities.Proofs.Docs.Description
import Capabilities.Proofs.Text.Slice
import Capabilities.Proofs.Docs.Preceding
import Capabilities.Proofs.Host.InFlight
import Capabilities.Proofs.Types.Chains
import Capabilities.Proofs.Inference.Course
import Capabilities.Proofs.Inference.Performing
import Capabilities.Proofs.Inference.Origin
import Capabilities.Proofs.Inference.Frames
import Capabilities.Proofs.Inference.Resolution
import Capabilities.Proofs.Types.Lookup
import Capabilities.Proofs.Session.Updating
import Capabilities.Proofs.Resolver.Repetition
import Capabilities.Proofs.Script.StringLiteral
import Capabilities.Proofs.Module.Spelling
import Capabilities.Proofs.CommandLine.Tables
import Capabilities.Proofs.Host.Letters
import Capabilities.Proofs.Session.Views
import Capabilities.Proofs.Session.Hearing
import Capabilities.Proofs.Session.Switching
import Capabilities.Proofs.Types.Propagation
import Capabilities.Proofs.Script.Preorder
import Capabilities.Proofs.Module.Scans
import Capabilities.Proofs.Module.Extraction
import Capabilities.Proofs.Inference.Reuse
