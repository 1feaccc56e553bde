import TacFlow.Json.Printer
import TacFlow.Main
import TacFlow.Proofs.Constant.LeastSolution
import TacFlow.Proofs.Constant.Merging
import TacFlow.Proofs.DeadCode.Pruning
import TacFlow.Proofs.DeadCode.Switching
import TacFlow.Proofs.Constant.FixedPoint
import TacFlow.Proofs.Constant.Assigned
import TacFlow.Proofs.Constant.Evaluation
import TacFlow.Proofs.Liveness.Paths
import TacFlow.Proofs.Program.Resolution
import TacFlow.Proofs.Program.Assembly
import TacFlow.Proofs.Program.Subtypes
import TacFlow.Proofs.Calls.Building
import TacFlow.Proofs.Calls.Dispatch
import TacFlow.Proofs.Calls.Reachability
import TacFlow.Proofs.Calls.Edges
import TacFlow.Proofs.Calls.Equations
import TacFlow.Proofs.Calls.Execution
import TacFlow.Proofs.Calls.FixedPoint
import TacFlow.Proofs.Calls.Joining
import TacFlow.Proofs.Calls.Refinement
import TacFlow.Proofs.Calls.Soundness
import TacFlow.Proofs.Calls.Tracked
import TacFlow.Proofs.Session.Runs
import TacFlow.Proofs.Flow.Building
import TacFlow.Proofs.Flow.Relabel
import TacFlow.Proofs.Calls.Callfree
import TacFlow.Proofs.Program.Cycles
import TacFlow.Proofs.Liveness.FixedPoint
import TacFlow.Proofs.Program.Layout
import TacFlow.Proofs.Program.Printing
import TacFlow.Proofs.Session.Limits
import TacFlow.Proofs.Session.Refusal
import TacFlow.Proofs.Grammar.Pointing
