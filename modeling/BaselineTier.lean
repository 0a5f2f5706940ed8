import BaselineTier.Bytecode.Evaluation
import BaselineTier.Machine.CodeBuffer
import BaselineTier.Machine.Execution
import BaselineTier.Engine
import BaselineTier.Proofs.Machine.CodeStream
import BaselineTier.Proofs.Allocation.Soundness
import BaselineTier.Proofs.Lowering.Meaning
import BaselineTier.Proofs.Lowering.Offsets
import BaselineTier.Proofs.Lowering.Frame
import BaselineTier.Proofs.Cache.Recency
import BaselineTier.Proofs.Replacement.Consistency
import BaselineTier.Proofs.Replacement.Validity
import BaselineTier.Proofs.Engine.BackEdge
import BaselineTier.Proofs.Engine.Lockstep
import BaselineTier.Proofs.Allocation.Pressure
import BaselineTier.Proofs.Lowering.ConstantLoad
import BaselineTier.Proofs.Compiler.Outcome
import BaselineTier.Proofs.Queue.Docket
import BaselineTier.Proofs.Allocation.LastUse
import BaselineTier.Proofs.Allocation.Supply
import BaselineTier.Proofs.Allocation.HeapOrder
import BaselineTier.Proofs.Lowering.CalleeSaved
import BaselineTier.Proofs.Profile.Hottest
import BaselineTier.Proofs.Machine.CallTarget
import BaselineTier.Proofs.Worker.Results
import BaselineTier.Proofs.Replacement.FrameImage
import BaselineTier.Proofs.Lowering.DoubleLoad
