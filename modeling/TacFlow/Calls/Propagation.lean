import TacFlow.Calls.Icfg
import TacFlow.Constant.Propagation

/-!
# Constant propagation across methods

Constants flow through calls: arguments into parameters, and returned variables into the variable
that takes the result. All calls of a method are merged. A call site itself only hands its
environment on; the value of its result comes along the return edges.
-/

namespace TacFlow.InterConstants

/-- The call at a call site with the variable for its result. -/
def siteAt (g : Icfg) (s : CallSite) : Option (Option Var × Call) :=
  match g.at? ⟨.stmt s.index, s.method⟩ with
  | some (.invoke result call) => some (result, call)
  | _ => none

/-- The variable that takes the result of the call at a program point. -/
def resultAt (g : Icfg) (n : ProgramPoint) : Option Var :=
  match g.at? n with
  | some (.invoke result _) => result
  | _ => none

/-- The environment that enters a callee: each parameter has the value of its argument. -/
def passArguments (params : List Var) (args : List Expr) (atCall : Env) : Env :=
  (params.zip args).foldl (fun f (x, e) => f.set x (e.eval atCall)) .empty

/-- The value of a call: what any of the returned variables holds. -/
def returnedValue (returned : List Var) (atExit : Env) : Value :=
  returned.foldl (fun v x => v.join (atExit.get x)) .unassigned

/-- What an edge makes of the environment at its source. -/
def alongEdge (g : Icfg) (e : FlowEdge) (f : Env) : Env :=
  match e.kind with
  | .normal => f
  | .callToReturn =>
    match resultAt g e.source with
    | some x => f.erase x
    | none => f
  | .call site callee =>
    match g.cfg? callee, siteAt g site with
    | some c, some (_, call) => passArguments c.body.params call.args f
    | _, _ => .empty
  | .ret site _ returned =>
    match siteAt g site with
    | some (some x, _) => Env.empty.set x (returnedValue returned f)
    | _ => .empty

/-- Whether a program point is the entry of an entry method. -/
def isBoundary (g : Icfg) (n : ProgramPoint) : Bool :=
  n.point = .entry && n.method ∈ g.entries

/-- What flows into a program point from outside the program. -/
def seed (g : Icfg) (n : ProgramPoint) : Env :=
  match isBoundary g n, g.cfg? n.method with
  | true, some c => Constants.boundary c.body
  | _, _ => .empty

/-- The environment after a program point. A call site takes over the environment before it. -/
def transfer (g : Icfg) (n : ProgramPoint) (before after : Env) : Env :=
  match g.at? n with
  | some (.invoke _ _) => (after.copyFrom before).1
  | s => Constants.transferStmt s before after

/-- Constant propagation across methods as a dataflow problem. -/
def problem (g : Icfg) : Problem ProgramPoint Env where
  nodes := g.nodes
  bottom := .empty
  start := seed g
  seed := seed g
  inflow n := (g.inEdges n).map fun e => (e.source, alongEdge g e)
  join := Env.joinWith
  transfer := transfer g
  same := Env.same
  users := g.succs

/-- The program points that are visited at first: all but the entries of entry methods that no edge
leads to. -/
def visited (g : Icfg) : List ProgramPoint :=
  g.nodes.filter fun n => !isBoundary g n || !(g.inEdges n).isEmpty

/-- Runs the worklist solver with limited visits. -/
def solveWithin (g : Icfg) (fuel : Nat) : Option (Solution ProgramPoint Env) :=
  ((problem g).solveWorklist fuel (visited g)).map Facts.forward

/-- Whether it can be told of every variable that gets a value if it is tracked. It is not asked of the
results of calls. -/
def canTrack [Nesting] (b : Body) : Bool :=
  (b.params ++ (b.stmts.filter (·.call?.isNone)).filterMap Stmt.defined).all (·.type.isSearchable)

/-- Solves the problem. -/
def solve [Nesting] (g : Icfg) : Except SolveError (Solution ProgramPoint Env) :=
  if g.cfgs.all fun (_, c) => canTrack c.body then finished (solveWithin g visitLimit)
  else .error .tooDeep

end TacFlow.InterConstants
