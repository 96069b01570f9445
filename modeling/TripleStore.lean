import TripleStore.Term.Order
import TripleStore.Term.Display
import TripleStore.Text.Styled
import TripleStore.Bindings
import TripleStore.Json.Reading
import TripleStore.Json.Printer
import TripleStore.Rule
import TripleStore.Query
import TripleStore.Store.Basic
import TripleStore.Search.Rows
import TripleStore.Catalog.Basic
import TripleStore.Database.Record
import TripleStore.Settings.Basic
import TripleStore.Command.Run
import TripleStore.Main
import TripleStore.Proofs.Bindings.Acyclic
import TripleStore.Proofs.Bindings.Failure
import TripleStore.Proofs.Checks
import TripleStore.Proofs.Bindings.Growth
import TripleStore.Proofs.Bindings.Variants
import TripleStore.Proofs.Bindings.Evaluation
import TripleStore.Proofs.Bindings.Renaming
import TripleStore.Proofs.Store.Index
import TripleStore.Proofs.Store.Candidates
import TripleStore.Proofs.Search.Pulls
import TripleStore.Proofs.Search.Transition
import TripleStore.Proofs.Search.Lockstep
import TripleStore.Proofs.Store.Model
import TripleStore.Proofs.Search.Freshness
import TripleStore.Proofs.Search.Soundness
import TripleStore.Proofs.Search.Completeness
import TripleStore.Proofs.Search.Retrieval
import TripleStore.Proofs.Search.Resolver
import TripleStore.Proofs.Search.Renaming
import TripleStore.Proofs.Search.Refinement
import TripleStore.Proofs.Search.Activation
import TripleStore.Proofs.Search.Rows
import TripleStore.Proofs.Search.RangeRestriction
import TripleStore.Proofs.Search.Exhaustion
import TripleStore.Proofs.Search.ClauseOrder
import TripleStore.Proofs.Search.Numbering
import TripleStore.Proofs.Bindings.Residue
import TripleStore.Proofs.Database.Appends
import TripleStore.Proofs.Search.Instantiation
import TripleStore.Proofs.Search.Multiplicity
import TripleStore.Proofs.Search.GoalOrder
import TripleStore.Proofs.Database.Indexing
import TripleStore.Proofs.Database.Facts
import TripleStore.Proofs.Search.Termination
import TripleStore.Proofs.Search.Join
import TripleStore.Proofs.Database.Identifiers
import TripleStore.Proofs.Fields
import TripleStore.Proofs.Json.Ordered
import TripleStore.Proofs.Database.Values
import TripleStore.Proofs.Database.Matches
import TripleStore.Proofs.Database.Tables
import TripleStore.Proofs.Database.Projection
import TripleStore.Proofs.Mentions
import TripleStore.Proofs.Json.Patterns
import TripleStore.Proofs.Catalog.Goals
import TripleStore.Proofs.Catalog.Scoping
import TripleStore.Proofs.Json.Distinct
import TripleStore.Proofs.Catalog.Grammar
import TripleStore.Proofs.Database.Records
import TripleStore.Proofs.Search.Related
import TripleStore.Proofs.Search.Fused
import TripleStore.Proofs.Json.Ground
import TripleStore.Proofs.Store.Views
import TripleStore.Proofs.Rule
import TripleStore.Proofs.Catalog.Constants
import TripleStore.Proofs.Search.Whether
import TripleStore.Proofs.Database.Answers
import TripleStore.Proofs.Search.Accounting
import TripleStore.Proofs.Text.Quoted
import TripleStore.Proofs.Term.Display
import TripleStore.Proofs.Json.Variants
import TripleStore.Proofs.Search.Shifting
import TripleStore.Proofs.Store.Cursors
import TripleStore.Proofs.Interning
import TripleStore.Proofs.Search.Words
