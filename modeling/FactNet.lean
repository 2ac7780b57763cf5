import FactNet.Command.Arguments
import FactNet.Command.Host
import FactNet.Command.Path
import FactNet.Command.Run
import FactNet.Decimal.Binary64
import FactNet.Decimal.Fixed
import FactNet.Decimal.Numeral
import FactNet.Decimal.Shortest
import FactNet.Domain
import FactNet.Double
import FactNet.Engine
import FactNet.Entity
import FactNet.Fact
import FactNet.Fact.File
import FactNet.Factor.Basic
import FactNet.Factor.Cache
import FactNet.Factor.Eager
import FactNet.Factor.GroundedRule
import FactNet.Factor.Merge
import FactNet.Factor.Table
import FactNet.Graph
import FactNet.Grounding.Binding
import FactNet.Grounding.Build
import FactNet.Grounding.Instances
import FactNet.Grounding.Registry
import FactNet.Json.Decode
import FactNet.Json.Reader
import FactNet.Json.Shown
import FactNet.Json.Value
import FactNet.Json.Writer
import FactNet.Log.Context
import FactNet.Log.Event
import FactNet.Log.File
import FactNet.Log.Message
import FactNet.Log.Record
import FactNet.Log.Rotation
import FactNet.Log.Setup
import FactNet.Log.Slot
import FactNet.LogProb
import FactNet.Main
import FactNet.Matching.Engine
import FactNet.Matching.Reader
import FactNet.Matching.Rule
import FactNet.Matching.Search
import FactNet.Naming
import FactNet.Net.Basic
import FactNet.Net.Sampler
import FactNet.Net.Search
import FactNet.Pairs
import FactNet.Program.Acyclic
import FactNet.Program.Basic
import FactNet.Program.Dependency
import FactNet.Program.Draft
import FactNet.Program.Reader
import FactNet.Query.Engine
import FactNet.Query.Evidence
import FactNet.Query.Selection
import FactNet.Random.MersenneTwister
import FactNet.Random.Stream
import FactNet.Relation
import FactNet.Scalar
import FactNet.Settings.Basic
import FactNet.Settings.Dotenv
import FactNet.Settings.Load
import FactNet.Text.Blank
import FactNet.Text.Capital
import FactNet.Text.Case
import FactNet.Text.Digit
import FactNet.Text.LineFault
import FactNet.Text.Lines
import FactNet.Text.Printable
import FactNet.Text.Quoted
import FactNet.Text.Split
import FactNet.World
import FactNet.Proofs.Exact
import FactNet.Proofs.Double
import FactNet.Proofs.Ranked
import FactNet.Proofs.Greatest
import FactNet.Proofs.Program.WeightOrder
import FactNet.Proofs.Factor.Locality
import FactNet.Proofs.Net.Touching
import FactNet.Proofs.Net.Moves
import FactNet.Proofs.Net.RunningScore
import FactNet.Proofs.Net.Frequencies
import FactNet.Proofs.Program.Acyclic
import FactNet.Proofs.Program.Greedy
import FactNet.Proofs.Text.Pieces
import FactNet.Proofs.Decimal.Written
import FactNet.Proofs.Program.RoundTrip
import FactNet.Proofs.Factor.Equivalence
import FactNet.Proofs.Domain
import FactNet.Proofs.Grounding.History
import FactNet.Proofs.Grounding.Candidates
import FactNet.Proofs.Grounding.Instances
import FactNet.Proofs.Grounding.Build
import FactNet.Proofs.Grounding.Clauses
import FactNet.Proofs.Grounding.Content
import FactNet.Proofs.Net.Gathering
import FactNet.Proofs.Net.BestWorld
import FactNet.Proofs.Whole
import FactNet.Proofs.Net.Steady
import FactNet.Proofs.Net.Certain
import FactNet.Proofs.Net.Weights
import FactNet.Proofs.Net.Possible
import FactNet.Proofs.Grounding.Evidence
import FactNet.Proofs.Net.Balance
import FactNet.Proofs.Graph
import FactNet.Proofs.Matching.Search
import FactNet.Proofs.Matching.Found
import FactNet.Proofs.Program.Declarations
import FactNet.Proofs.Grounding.Accepted
import FactNet.Proofs.Query.Groundable
import FactNet.Proofs.Query.Rounds
import FactNet.Proofs.Growth
import FactNet.Proofs.Matching.Inferred
import FactNet.Proofs.Extension
import FactNet.Proofs.Matching.Loaded
import FactNet.Proofs.Matching.Applied
import FactNet.Proofs.Odds
import FactNet.Proofs.Query.Monotone
import FactNet.Proofs.Grounding.Acyclic
import FactNet.Proofs.Grounding.ClosedWorld
import FactNet.Proofs.BestFacts
import FactNet.Proofs.Grounding.Rows
import FactNet.Proofs.Grounding.Equality
import FactNet.Proofs.Grounding.Stored
import FactNet.Proofs.Factor.Uncertain
import FactNet.Proofs.Grounding.Uncertain
import FactNet.Proofs.Adjacency
import FactNet.Proofs.Naming
import FactNet.Proofs.TypedNames
import FactNet.Proofs.Query.Constants
import FactNet.Proofs.Grounding.Certain
import FactNet.Proofs.Query.Spellings
import FactNet.Proofs.Program.Drafting
import FactNet.Proofs.Matching.Limited
import FactNet.Proofs.Factor.Specific
import FactNet.Proofs.Low
import FactNet.Proofs.Grounding.Tables
import FactNet.Proofs.Grounding.Batches
import FactNet.Proofs.Grounding.Refusal
import FactNet.Proofs.Net.Climbing
import FactNet.Proofs.Matching.Places
import FactNet.Proofs.Matching.Cutoff
import FactNet.Proofs.Matching.Larger
import FactNet.Proofs.Rounding.Nearest
import FactNet.Proofs.Rounding.Order
import FactNet.Proofs.HeldScores
import FactNet.Proofs.Program.FirstFault
import FactNet.Proofs.Program.Union
import FactNet.Proofs.Factor.Explained
import FactNet.Proofs.Log.Rotation
import FactNet.Proofs.Json.Decode
import FactNet.Proofs.Command.Store
import FactNet.Proofs.Command.Context
import FactNet.Proofs.Command.RuleFiles
import FactNet.Proofs.Rounding.Near
import FactNet.Proofs.Rounding.Bits
import FactNet.Proofs.Rounding.Scientific
import FactNet.Proofs.Decimal.Nearest
import FactNet.Proofs.Decimal.Shortest
import FactNet.Proofs.Text.Numerals
import FactNet.Proofs.Json.Limits
import FactNet.Proofs.Json.Number
import FactNet.Proofs.Json.Written
import FactNet.Proofs.Fact.File
import FactNet.Proofs.Factor.Priors
import FactNet.Proofs.Program.AncestorTable
import FactNet.Proofs.Grounding.Ledger
import FactNet.Proofs.Grounding.Bookkeeping
