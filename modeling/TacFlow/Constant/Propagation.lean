import TacFlow.Constant.Eval
import TacFlow.Flow.Cfg
import TacFlow.Flow.Solution

/-!
# Constant propagation

A forward analysis of one method: which variables hold one known constant at a point. Parameters can
hold anything. An assignment of a variable that is not tracked leaves the environment as it is.
-/

namespace TacFlow.Constants

/-- The environment behind the entry: every tracked parameter is unknown. -/
def boundary (b : Body) : Env :=
  b.params.foldl (fun f x => if x.isIntLike then f.set x .nac else f) .empty

/-- What a statement assigns to a tracked variable. -/
def assigned (before : Env) : Stmt → Option (Var × Value)
  | .assign (.var x) value => if x.isIntLike then some (x, value.eval before) else none
  | .invoke (some x) call => if x.isIntLike then some (x, call.toExpr.eval before) else none
  | _ => none

/-- The environment after a statement. It takes over the environment before, and what only the
former environment after the statement knew stays in it. -/
def transferStmt (s : Option Stmt) (before after : Env) : Env :=
  let copied := (after.copyFrom before).1
  match s.bind (assigned before) with
  | some (x, v) => copied.set x v
  | none => copied

/-- Constant propagation as a dataflow problem on a control flow graph. -/
def problem (g : Cfg) : Problem Point Env where
  nodes := g.nodes
  bottom := .empty
  start p := if p = .entry then boundary g.body else .empty
  seed _ := .empty
  inflow p := (g.preds p).map fun q => (q, id)
  join := Env.joinWith
  transfer p before after := transferStmt (g.body.at? p) before after
  same := Env.same
  users := g.succs

/-- The name of the analysis in error messages. -/
def analysisName : String :=
  "ConstantPropagation"

/-- The nodes that are visited: all but the entry. -/
def visited (g : Cfg) : List Point :=
  g.nodes.filter (· ≠ .entry)

/-- Runs one of the solvers with limited visits. -/
def solveWithin (g : Cfg) (solver : SolverKind) (fuel : Nat) : Option (Solution Point Env) :=
  match solver with
  | .worklist => ((problem g).solveWorklist fuel (visited g)).map Facts.forward
  | .iterative => ((problem g).solveSweeping fuel (visited g)).map Facts.forward

/-- Whether a solver follows a jump that lacks its target: the worklist solver follows a jump once
something is known behind it, the sweeping solver follows none. -/
def followsLoose (s : Solution Point Env) (solver : SolverKind) (i : Nat) : Bool :=
  solver = .worklist && ((s.after.get? (.stmt i)).getD .empty).size ≠ 0

/-- Whether it can be told of every variable that gets a value if it is tracked. -/
def canTrack [Nesting] (b : Body) : Bool :=
  (b.params ++ b.stmts.filterMap Stmt.defined).all (·.type.isSearchable)

/-- Solves with one of the solvers. -/
def solveWith [Nesting] (g : Cfg) (solver : SolverKind) : Except SolveError (Solution Point Env) := do
  if !canTrack g.body then .error .tooDeep
  let s ← finished (solveWithin g solver visitLimit)
  match g.body.looseJumps.find? (followsLoose s solver) with
  | some i => .error (.looseJump i)
  | none => .ok s

/-- Solves with the solver of a given name, by default the worklist solver. -/
def solve [Nesting] (g : Cfg) (solver : Option String) : Except SolveError (Solution Point Env) :=
  match solver with
  | none => solveWith g .worklist
  | some name =>
    match SolverKind.ofName? name with
    | some kind => solveWith g kind
    | none => .error (.unknownSolver name)

/-- Whether the facts of a solution are stable: at every node but the entry, merging gives the
environment before and the transfer leaves the environment after as it is. -/
def isFixed (g : Cfg) (s : Solution Point Env) : Bool :=
  let facts : Facts Point Env := ⟨s.before, s.after, 0⟩
  let p := problem g
  (visited g).all fun n =>
    p.same (p.merged facts n) (p.nearOf facts n) && !p.changes (p.nearOf facts n) (p.farOf facts n) n

end TacFlow.Constants
