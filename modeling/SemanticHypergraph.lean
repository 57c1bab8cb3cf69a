import SemanticHypergraph.Text.Blank
import SemanticHypergraph.Text.Quoted
import SemanticHypergraph.Entity.Order
import SemanticHypergraph.Entity.Printing
import SemanticHypergraph.Entity.Reading
import SemanticHypergraph.Value
import SemanticHypergraph.Entity.Subedges
import SemanticHypergraph.Pattern.Selection
import SemanticHypergraph.Snapshot.File
import SemanticHypergraph.Digest.Blake3
import SemanticHypergraph.Text.Hex
import SemanticHypergraph.Store.Numbered
import SemanticHypergraph.Store.Transfer
import SemanticHypergraph.Store.Pending
import SemanticHypergraph.Settings.Application
import SemanticHypergraph.Store.Basic
import SemanticHypergraph.Json.Reading
import SemanticHypergraph.Json.Writing
import SemanticHypergraph.Http.Server
import SemanticHypergraph.CommandLine.Execution
import SemanticHypergraph.Main
import SemanticHypergraph.Proofs.Entity.Containment
import SemanticHypergraph.Proofs.Pattern.Fits
import SemanticHypergraph.Proofs.Snapshot.Encoding
import SemanticHypergraph.Proofs.Store.Table
import SemanticHypergraph.Proofs.Store.Content
import SemanticHypergraph.Proofs.Store.Lawful
import SemanticHypergraph.Proofs.Store.Ordered
import SemanticHypergraph.Proofs.Store.Numbering
import SemanticHypergraph.Proofs.Store.Numbered
import SemanticHypergraph.Proofs.Store.Basic
import SemanticHypergraph.Proofs.Store.Operation
import SemanticHypergraph.Proofs.Store.Capture
import SemanticHypergraph.Proofs.Store.Removal
import SemanticHypergraph.Proofs.Store.Agreement
import SemanticHypergraph.Proofs.Store.Refinement
import SemanticHypergraph.Proofs.Store.Run
import SemanticHypergraph.Proofs.Store.Reachable
import SemanticHypergraph.Proofs.Store.Matching
import SemanticHypergraph.Proofs.Store.Totality
import SemanticHypergraph.Proofs.Store.Numbers
import SemanticHypergraph.Proofs.Store.DeepRemoval
import SemanticHypergraph.Proofs.Entity.AtomText
import SemanticHypergraph.Proofs.Store.Indexes
import SemanticHypergraph.Proofs.Entity.Grammar
import SemanticHypergraph.Proofs.Entity.Reading
import SemanticHypergraph.Proofs.Snapshot.Decoding
import SemanticHypergraph.Proofs.Store.Filling
import SemanticHypergraph.Proofs.Store.Restoring
import SemanticHypergraph.Proofs.Store.Transfer
import SemanticHypergraph.Proofs.Store.Closure
import SemanticHypergraph.Proofs.CommandLine.Directory
import SemanticHypergraph.Proofs.CommandLine.Session
import SemanticHypergraph.Proofs.CommandLine.Persistence
import SemanticHypergraph.Proofs.Entity.RoundTrip
import SemanticHypergraph.Proofs.Snapshot.Shortest
import SemanticHypergraph.Proofs.Snapshot.Injective
import SemanticHypergraph.Proofs.Store.Canonical
import SemanticHypergraph.Proofs.Store.Sheltered
import SemanticHypergraph.Proofs.Store.Adding
import SemanticHypergraph.Proofs.Store.DeepDegree
import SemanticHypergraph.Proofs.Store.Tokens
import SemanticHypergraph.Proofs.Store.Interruption
import SemanticHypergraph.Proofs.Store.Failures
import SemanticHypergraph.Proofs.Store.AddingOrder
import SemanticHypergraph.Proofs.Store.PatternRemoval
import SemanticHypergraph.Proofs.Store.Pending
import SemanticHypergraph.Proofs.Store.Recording
import SemanticHypergraph.Proofs.Store.Lifetimes
import SemanticHypergraph.Proofs.Store.AddingEffect
import SemanticHypergraph.Proofs.Entity.CanonicalText
import SemanticHypergraph.Proofs.Http.Access
import SemanticHypergraph.Proofs.Http.Calls
import SemanticHypergraph.Proofs.Http.Contract
import SemanticHypergraph.Proofs.Pattern.Instantiation
import SemanticHypergraph.Proofs.Pattern.Draining
import SemanticHypergraph.Proofs.Store.RestoringEffect
import SemanticHypergraph.Proofs.Snapshot.Checksum
import SemanticHypergraph.Proofs.Store.UnconditionalRemoval
import SemanticHypergraph.Proofs.Store.Structure
import SemanticHypergraph.Proofs.Store.Reinsertion
import SemanticHypergraph.Proofs.Entity.Places
import SemanticHypergraph.Proofs.Entity.Slices
import SemanticHypergraph.Proofs.Entity.Refusals
import SemanticHypergraph.Proofs.Entity.LoneAtom
import SemanticHypergraph.Proofs.Entity.Walk
