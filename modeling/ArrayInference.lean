import ArrayInference.Config.Reading
import ArrayInference.Constant.Access
import ArrayInference.Engine.Inference
import ArrayInference.Engine.Inspection
import ArrayInference.Engine.Registration
import ArrayInference.Rules.Sample
import ArrayInference.WaitingRoom
import ArrayInference.Proofs.Bounds.Builtin
import ArrayInference.Proofs.Engine.Dropping
import ArrayInference.Proofs.Engine.Registering
import ArrayInference.Proofs.Engine.Specializing
import ArrayInference.Proofs.Engine.Spreading
import ArrayInference.Proofs.Exchange.Outcomes
import ArrayInference.Proofs.Extents.Broadcast
import ArrayInference.Proofs.Extents.Counting
import ArrayInference.Proofs.Folding.Integers
import ArrayInference.Proofs.Lattice.Default
import ArrayInference.Proofs.Lattice.Join
import ArrayInference.Proofs.Nesting.Contexts
import ArrayInference.Proofs.Plain.Binding
import ArrayInference.Proofs.Promises.Rooms
import ArrayInference.Proofs.Refining.Folding
import ArrayInference.Proofs.Report.Order
import ArrayInference.Proofs.Run.Attribution
import ArrayInference.Proofs.Run.Clean
import ArrayInference.Proofs.Run.Session
import ArrayInference.Proofs.Tracks.Members
import ArrayInference.Proofs.Tuples.Updates
import ArrayInference.Proofs.Types.Constructing
import ArrayInference.Proofs.Types.Naming
