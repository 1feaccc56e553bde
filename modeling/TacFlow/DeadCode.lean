import TacFlow.Constant.Propagation
import TacFlow.Liveness.Analysis

/-!
# Dead code

A statement is dead if control cannot reach it by what constant propagation knows about the branches,
or if it assigns a variable that is not live afterwards and its right-hand side is pure.
-/

namespace TacFlow.DeadCode

/-- The nodes that control can pass to from a node, given the constants before it. A condition that
is known keeps one of its branches, a switch on a known value keeps the matching cases, or the
default if there are none. -/
def liveSuccs (g : Cfg) (constants : Point → Env) (p : Point) : List Point :=
  match g.body.at? p with
  | some (.branch cond _) =>
    match cond.eval (constants p) with
    | .const n =>
      let taken : EdgeKind := if n = 1 then .ifTrue else .ifFalse
      ((g.outEdges p).filter (·.kind = taken)).map (·.target)
    | _ => g.succs p
  | some (.switch x cases default) =>
    match (constants p).get x with
    | .const n =>
      match cases.filter (·.1 = n) with
      | [] => default.toList.map .stmt
      | hits => hits.map fun hit => .stmt hit.2
    | _ => g.succs p
  | _ => g.succs p

/-- The nodes that control can reach. -/
def reached (g : Cfg) (constants : Point → Env) : List Point :=
  Search.reach g.nodes (liveSuccs g constants) [.entry]

/-- Whether a statement assigns a variable for nothing. -/
def isUseless (live : FinSet Var) : Stmt → Bool
  | .assign (.var x) value => !live.contains x && value.isPure
  | _ => false

/-- The positions of the dead statements, in order, given the constants before and the variables live
after every node. -/
def detect (g : Cfg) (constants : Point → Env) (live : Point → FinSet Var) : List Nat :=
  let found := reached g constants
  (g.body.stmts.zipIdx.filter fun (s, i) =>
    .stmt i ∉ found || isUseless (live (.stmt i)) s).map (·.2)

/-- The dead statements of a body by the solutions of the two analyses it rests on. -/
def ofSolutions (g : Cfg) (constants : Solution Point Env) (live : Solution Point (FinSet Var)) :
    List Nat :=
  detect g (fun p => (constants.before.get? p).getD .empty)
    fun p => (live.after.get? p).getD .empty

/-- The dead statements of a body. The solver of a given name solves constant propagation. -/
def solve [Nesting] (g : Cfg) (solver : Option String) : Except SolveError (List Nat) := do
  let constants ← Constants.solve g solver
  return ofSolutions g constants (← Liveness.solve g none)

end TacFlow.DeadCode
