import Replanning.Binary64
import Replanning.Decimal
import Replanning.Layout
import Replanning.Json.Basic
import Replanning.Json.Printer
import Replanning.Json.Token
import Replanning.Json.Reader
import Replanning.Json.Canonical
import Replanning.Json.Record
import Replanning.RandomStream
import Replanning.Statistics
import Replanning.DickeyFuller
import Replanning.Slot
import Replanning.Ensemble
import Replanning.Score
import Replanning.Ranking
import Replanning.Ledger
import Replanning.Selection
import Replanning.Packing
import Replanning.Policy
import Replanning.ConfigError
import Replanning.GapSample
import Replanning.Adaptation
import Replanning.Controller
import Replanning.Event
import Replanning.EngineConfig
import Replanning.Encoding.Config
import Replanning.Encoding.Controller
import Replanning.Encoding.Ensemble
import Replanning.Encoding.Event
import Replanning.Digest
import Replanning.Writer
import Replanning.Sink
import Replanning.Engine
import Replanning.Proofs.Outcome
import Replanning.Proofs.Slot
import Replanning.Proofs.Footprint
import Replanning.Proofs.Ledger
import Replanning.Proofs.Packing
import Replanning.Proofs.Ensemble
import Replanning.Proofs.Validation
import Replanning.Proofs.Score
import Replanning.Proofs.RandomStream
import Replanning.Proofs.Policy
import Replanning.Proofs.Tally
import Replanning.Proofs.Recount
import Replanning.Proofs.Omission
import Replanning.Proofs.Bounds
import Replanning.Proofs.Failure
import Replanning.Proofs.Decisions
import Replanning.Proofs.SlotLocal
import Replanning.Proofs.Exchange
import Replanning.Proofs.MeanBound
import Replanning.Proofs.Occupancy
import Replanning.Proofs.TrustRegion
import Replanning.Proofs.Controller
import Replanning.Proofs.Sink
import Replanning.Proofs.Engine
import Replanning.Proofs.Iteration
import Replanning.Proofs.Replay
import Replanning.Proofs.Draws
import Replanning.Proofs.SelfExclusion
import Replanning.Proofs.Json.Line
import Replanning.Proofs.Encoding.Event
import Replanning.Proofs.EventLines
import Replanning.Proofs.Resume
import Replanning.Proofs.Lockstep
import Replanning.Proofs.Checkpoint
import Replanning.Proofs.Binary64.Count
import Replanning.Proofs.Binary64.Pattern
import Replanning.Proofs.Binary64.Nearest
import Replanning.Proofs.Binary64.Order
import Replanning.Proofs.Binary64.Signed
import Replanning.Proofs.Binary64.Rounding
import Replanning.Proofs.Decimal
import Replanning.Proofs.Json.Number
import Replanning.Proofs.Json.Token
import Replanning.Proofs.Json.Reader
import Replanning.Proofs.Json.Record
import Replanning.Proofs.Encoding.Controller
import Replanning.Proofs.Binary64.NonFinite
import Replanning.Proofs.Binary64.Undefined
import Replanning.Proofs.Binary64.Positive
import Replanning.Proofs.Worsening
import Replanning.Proofs.Listing
import Replanning.Proofs.Ranking
import Replanning.Proofs.GapWindow
import Replanning.Proofs.WindowContents
import Replanning.Proofs.Restore
import Replanning.Proofs.Encoding.Config
import Replanning.Proofs.Json.Indented
import Replanning.Proofs.Encoding.Ensemble
import Replanning.Proofs.RoundTrip
import Replanning.Proofs.Json.Canonical
import Replanning.Proofs.ConfigGate
import Replanning.Proofs.Exhaustion
import Replanning.Proofs.Estimates
import Replanning.Proofs.LoneReplication
import Replanning.Proofs.Binary64.Monotone
import Replanning.Proofs.Readiness
import Replanning.Proofs.Leniency
import Replanning.Proofs.Acceptance
import Replanning.Proofs.TopShare
import Replanning.Proofs.Binary64.Exact
import Replanning.Proofs.UnitDraw
import Replanning.Proofs.Coupling
import Replanning.Proofs.PlainText
import Replanning.Proofs.Table
import Replanning.Proofs.LimitedRoom
import Replanning.Proofs.StreamState
