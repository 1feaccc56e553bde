import TacFlow.Flow.Cfg
import TacFlow.Flow.Solution
import TacFlow.Liveness.FinSet

/-!
# Live variables

A backward analysis of one method: which variables may still be read before they are written again.
-/

namespace TacFlow.Liveness

/-- The variables live before a statement, from those live after it: those it reads, and those live
after it that it does not write. -/
def transferStmt (s : Option Stmt) (after : FinSet Var) : FinSet Var :=
  match s with
  | none => after
  | some s =>
    let kept := match s.defined with
      | some x => after.erase x
      | none => after
    s.uses.foldl FinSet.insert kept

/-- Liveness as a dataflow problem on a control flow graph. -/
def problem (g : Cfg) : Problem Point (FinSet Var) where
  nodes := g.nodes
  bottom := .empty
  start _ := .empty
  seed _ := .empty
  inflow p := (g.succs p).map fun q => (q, id)
  join := FinSet.union
  transfer p after _ := transferStmt (g.body.at? p) after
  same := FinSet.same
  users := g.preds

/-- The nodes that are visited: all but the exit, last first. -/
def visited (g : Cfg) : List Point :=
  (g.nodes.filter (· ≠ .exit)).reverse

/-- Runs the sweeping solver with limited sweeps. -/
def solveWithin (g : Cfg) (fuel : Nat) : Option (Solution Point (FinSet Var)) :=
  ((problem g).solveSweeping fuel (visited g)).map Facts.backward

/-- The name of the analysis in error messages. -/
def analysisName : String :=
  "LiveVariableAnalysis"

/-- Solves with the sweeping solver. It asks for what is live at the target of every jump. -/
def sweep (g : Cfg) : Except SolveError (Solution Point (FinSet Var)) :=
  match g.body.looseJumps with
  | [] => finished (solveWithin g visitLimit)
  | i :: _ => .error (.looseJump i)

/-- Solves with the solver of a given name, by default the sweeping solver. The worklist solver
refuses a backward analysis. -/
def solve (g : Cfg) (solver : Option String) : Except SolveError (Solution Point (FinSet Var)) :=
  match solver with
  | none => sweep g
  | some name =>
    match SolverKind.ofName? name with
    | some .iterative => sweep g
    | some .worklist => .error (.backwardWorklist analysisName)
    | none => .error (.unknownSolver name)

/-- Whether the transfers are stable: at every node but the exit, the transfer leaves the variables
live before the node as they are. -/
def isFixed (g : Cfg) (s : Solution Point (FinSet Var)) : Bool :=
  let facts : Facts Point (FinSet Var) := ⟨s.after, s.before, 0⟩
  let p := problem g
  (visited g).all fun n => !p.changes (p.nearOf facts n) (p.farOf facts n) n

end TacFlow.Liveness
