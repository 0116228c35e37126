import LocalTable.Batch
import LocalTable.Session
import LocalTable.Proofs.Generate.Places
import LocalTable.Proofs.Process
import LocalTable.Proofs.Flow.Coherence
import LocalTable.Proofs.Frame.Absorption
import LocalTable.Proofs.Frames.Extent
import LocalTable.Proofs.Frames.Order
import LocalTable.Proofs.Frames.Shape
import LocalTable.Proofs.Refine.Family
import LocalTable.Proofs.Batch
import LocalTable.Proofs.Descriptor
import LocalTable.Proofs.Naming.Distinct
import LocalTable.Proofs.Trim.Exits
import LocalTable.Proofs.Trim.Drops
import LocalTable.Proofs.Trim.Losses
import LocalTable.Proofs.Refine.Reaching
import LocalTable.Proofs.Refine.Spreading
import LocalTable.Proofs.Refine.Settling
import LocalTable.Proofs.Refine.History
import LocalTable.Proofs.Refine.Operands
import LocalTable.Proofs.Refine.Trials
import LocalTable.Proofs.Refine.Attempts
import LocalTable.Proofs.Frame.Demand
import LocalTable.Proofs.Subtyping.Reachability
import LocalTable.Proofs.Frames.Deltas
import LocalTable.Proofs.Table.Pruning
import LocalTable.Proofs.Frame.Layout
import LocalTable.Proofs.Naming.Legal
import LocalTable.Proofs.Naming.Odometer
import LocalTable.Proofs.Scope.Closure
