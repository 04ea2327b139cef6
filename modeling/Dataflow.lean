import Dataflow.Archive.Error
import Dataflow.Archive.Models
import Dataflow.Archive.Nodes
import Dataflow.Archive.Record
import Dataflow.Archive.Registry
import Dataflow.Archive.Version
import Dataflow.Decimal.Scaled
import Dataflow.Decimal.Shortest
import Dataflow.Decimal.Text
import Dataflow.Graph.Coordinate
import Dataflow.Graph.Elements
import Dataflow.Graph.Error
import Dataflow.Graph.Evaluation
import Dataflow.Graph.JsonForm
import Dataflow.Graph.Kind
import Dataflow.Graph.Model
import Dataflow.Graph.Node
import Dataflow.Graph.Port
import Dataflow.Graph.Recipe
import Dataflow.Graph.Shape
import Dataflow.Graph.TopologicalSort
import Dataflow.Graph.Window
import Dataflow.Json.Basic
import Dataflow.Json.Form
import Dataflow.Json.Numeral
import Dataflow.Json.Reader
import Dataflow.Json.Token
import Dataflow.Json.Writer
import Dataflow.Lowering.Compilation
import Dataflow.Lowering.JsonForm
import Dataflow.Lowering.NodeCode
import Dataflow.Lowering.Options
import Dataflow.Lowering.Scope
import Dataflow.Lowering.Site
import Dataflow.Native.Code
import Dataflow.Native.Execution
import Dataflow.Native.Machine
import Dataflow.Native.Memory
import Dataflow.Native.Word
import Dataflow.Pass.JsonForm
import Dataflow.Pass.PortMap
import Dataflow.Pass.Refinement
import Dataflow.Pass.Transformer
import Dataflow.Proofs.Actions
import Dataflow.Proofs.Archive.Decoding
import Dataflow.Proofs.Archive.Fields
import Dataflow.Proofs.Archive.NodeRecords
import Dataflow.Proofs.Archive.Reading
import Dataflow.Proofs.Archive.Rereading
import Dataflow.Proofs.Archive.RoundTrip
import Dataflow.Proofs.Archive.Texts
import Dataflow.Proofs.Decimal.Scaling
import Dataflow.Proofs.Decimal.Shortest
import Dataflow.Proofs.Graph.Assigning
import Dataflow.Proofs.Graph.Closures
import Dataflow.Proofs.Graph.Coherence
import Dataflow.Proofs.Graph.Growing
import Dataflow.Proofs.Graph.History
import Dataflow.Proofs.Graph.Layouts
import Dataflow.Proofs.Graph.Likeness
import Dataflow.Proofs.Graph.Loading
import Dataflow.Proofs.Graph.Ordering
import Dataflow.Proofs.Graph.Preservation
import Dataflow.Proofs.Graph.Ranges
import Dataflow.Proofs.Graph.Readers
import Dataflow.Proofs.Graph.Remembering
import Dataflow.Proofs.Graph.Rewiring
import Dataflow.Proofs.Graph.Settled
import Dataflow.Proofs.Graph.Solution
import Dataflow.Proofs.Graph.Sorting
import Dataflow.Proofs.Graph.Sound
import Dataflow.Proofs.Graph.Standard
import Dataflow.Proofs.Graph.Totals
import Dataflow.Proofs.Graph.Verification
import Dataflow.Proofs.Graph.WellFormed
import Dataflow.Proofs.Json.Doubles
import Dataflow.Proofs.Json.Numerals
import Dataflow.Proofs.Json.RoundTrip
import Dataflow.Proofs.Json.Tokens
import Dataflow.Proofs.Lowering.Acceptance
import Dataflow.Proofs.Lowering.Accepting
import Dataflow.Proofs.Lowering.AcceptingNodes
import Dataflow.Proofs.Lowering.Copies
import Dataflow.Proofs.Lowering.Correctness
import Dataflow.Proofs.Lowering.Effects
import Dataflow.Proofs.Lowering.Elementwise
import Dataflow.Proofs.Lowering.EntryRoutine
import Dataflow.Proofs.Lowering.Gathering
import Dataflow.Proofs.Lowering.NodeCode
import Dataflow.Proofs.Lowering.Nodes
import Dataflow.Proofs.Lowering.Options
import Dataflow.Proofs.Lowering.Outputs
import Dataflow.Proofs.Lowering.Requests
import Dataflow.Proofs.Lowering.Resolution
import Dataflow.Proofs.Lowering.SafeEntry
import Dataflow.Proofs.Lowering.SafeNodes
import Dataflow.Proofs.Lowering.Settling
import Dataflow.Proofs.Lowering.SettlingEntry
import Dataflow.Proofs.Lowering.SettlingNodes
import Dataflow.Proofs.Lowering.Simulation
import Dataflow.Proofs.Lowering.SingleAssignment
import Dataflow.Proofs.Lowering.Sites
import Dataflow.Proofs.Lowering.Strategies
import Dataflow.Proofs.Lowering.Subroutines
import Dataflow.Proofs.Lowering.Sums
import Dataflow.Proofs.Native.Agreement
import Dataflow.Proofs.Native.Compiled
import Dataflow.Proofs.Native.Finishing
import Dataflow.Proofs.Native.Looping
import Dataflow.Proofs.Native.Memory
import Dataflow.Proofs.Native.Tracking
import Dataflow.Proofs.Pass.Callbacks
import Dataflow.Proofs.Pass.Composition
import Dataflow.Proofs.Pass.Contract
import Dataflow.Proofs.Pass.Convergence
import Dataflow.Proofs.Pass.Counting
import Dataflow.Proofs.Pass.Forgetting
import Dataflow.Proofs.Pass.Grounding
import Dataflow.Proofs.Pass.Meaning
import Dataflow.Proofs.Pass.PortMaps
import Dataflow.Proofs.Pass.Refining
import Dataflow.Proofs.Pass.Renumbering
import Dataflow.Proofs.Pass.Replacing
import Dataflow.Proofs.Pass.Soundness
import Dataflow.Proofs.Pass.Stages
import Dataflow.Proofs.Pass.Submodels
import Dataflow.Proofs.Reachable
import Dataflow.Proofs.Routine.Accesses
import Dataflow.Proofs.Routine.Accounts
import Dataflow.Proofs.Routine.Assembling
import Dataflow.Proofs.Routine.Blocks
import Dataflow.Proofs.Routine.Building
import Dataflow.Proofs.Routine.Calls
import Dataflow.Proofs.Routine.Constants
import Dataflow.Proofs.Routine.Emission
import Dataflow.Proofs.Routine.Frames
import Dataflow.Proofs.Routine.Layout
import Dataflow.Proofs.Routine.Moments
import Dataflow.Proofs.Routine.Passing
import Dataflow.Proofs.Routine.Running
import Dataflow.Proofs.Routine.SafeBuilding
import Dataflow.Proofs.Routine.SafeRuns
import Dataflow.Proofs.Routine.Safety
import Dataflow.Proofs.Routine.Settling
import Dataflow.Proofs.Routine.Soundness
import Dataflow.Proofs.Routine.TypedMachines
import Dataflow.Proofs.Routine.Typing
import Dataflow.Proofs.Scalar.Doubles
import Dataflow.Proofs.Scalar.Precision
import Dataflow.Proofs.Scalar.Rounding
import Dataflow.Proofs.Scalar.Sameness
import Dataflow.Routine.Assembly
import Dataflow.Routine.Basic
import Dataflow.Routine.Builder
import Dataflow.Routine.Error
import Dataflow.Routine.Execution
import Dataflow.Routine.Host
import Dataflow.Routine.Listing
import Dataflow.Routine.Machine
import Dataflow.Routine.Notice
import Dataflow.Scalar.Basic
import Dataflow.Scalar.Bits
import Dataflow.Scalar.Buffer
import Dataflow.Scalar.JsonForm
import Dataflow.Scalar.Operation
import Dataflow.Scalar.Precision
import Dataflow.Scalar.Real
import Dataflow.Scalar.Real.Lemmas
