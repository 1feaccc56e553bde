import TacFlow.Calls.Graph
import TacFlow.Flow.Cfg

/-!
# Interprocedural control flow graphs

The control flow graphs of all reachable methods that have a body, joined along the call graph. The
edges that leave a call site pass the call by. A call edge leads from the call site to the entry of
each callee, and return edges lead from the exit of the callee to what follows the call.
-/

namespace TacFlow

/-- A point of one of the methods. -/
structure ProgramPoint where
  point : Point
  method : MethodId
  deriving DecidableEq, Repr

/-- What an edge between program points stands for. The edges of a call carry the call site; a return
edge also carries the variables that the callee may return. -/
inductive FlowKind where
  | normal
  | callToReturn
  | call (site : CallSite) (callee : MethodId)
  | ret (site : CallSite) (callee : MethodId) (returned : List Var)
  deriving DecidableEq, Repr

/-- The name of a kind. -/
def FlowKind.name : FlowKind → String
  | normal => "normal"
  | callToReturn => "call-to-return"
  | call _ _ => "call"
  | ret _ _ _ => "return"

/-- An edge between program points. -/
structure FlowEdge where
  source : ProgramPoint
  target : ProgramPoint
  kind : FlowKind
  deriving DecidableEq, Repr

/-- The control flow graphs of the methods that have a body, with the edges that join them, in the
order in which they were made. -/
structure Icfg where
  callGraph : CallGraph
  cfgs : List (MethodId × Cfg)
  edges : List FlowEdge

namespace Icfg

/-- The control flow graph of a method in a list. -/
def lookup (cfgs : List (MethodId × Cfg)) (m : MethodId) : Option Cfg :=
  (cfgs.find? (·.1 = m)).map (·.2)

/-- The edges within a method that leave a point. -/
def localEdges (m : MethodId) (g : Cfg) (p : Point) : List FlowEdge :=
  let kind : FlowKind := if ((g.body.at? p).bind Stmt.call?).isSome then .callToReturn else .normal
  (g.succs p).map fun q => ⟨⟨p, m⟩, ⟨q, m⟩, kind⟩

/-- The edges into one callee of a call site and back. -/
def calleeEdges (m : MethodId) (g : Cfg) (i : Nat) (callee : MethodId) (target : Cfg) :
    List FlowEdge :=
  let site : CallSite := ⟨i, m⟩
  ⟨⟨.stmt i, m⟩, ⟨.entry, callee⟩, .call site callee⟩ ::
    (g.succs (.stmt i)).map fun q =>
      ⟨⟨.exit, callee⟩, ⟨q, m⟩, .ret site callee target.body.returnVars⟩

/-- The edges that the calls of a point contribute. -/
def callEdges (cg : CallGraph) (cfgs : List (MethodId × Cfg)) (m : MethodId) (g : Cfg) (p : Point) :
    List FlowEdge :=
  match p, (g.body.at? p).bind Stmt.call? with
  | .stmt i, some _ => (cg.callees ⟨i, m⟩).flatMap fun callee =>
      match lookup cfgs callee with
      | some target => calleeEdges m g i callee target
      | none => []
  | _, _ => []

/-- The interprocedural control flow graph over a call graph. Methods without a body are left out. -/
def ofCallGraph (cg : CallGraph) (body? : MethodId → Option Body) : Icfg :=
  let cfgs := cg.reachable.filterMap fun m => (body? m).map fun b => (m, Cfg.ofBody b)
  { callGraph := cg
    cfgs := cfgs
    edges := cfgs.flatMap fun (m, g) => g.nodes.flatMap fun p =>
      localEdges m g p ++ callEdges cg cfgs m g p }

/-- The methods that have a control flow graph. -/
def methods (g : Icfg) : List MethodId :=
  g.cfgs.map (·.1)

/-- The control flow graph of a method. -/
def cfg? (g : Icfg) (m : MethodId) : Option Cfg :=
  lookup g.cfgs m

/-- The entry methods that have a control flow graph. -/
def entries (g : Icfg) : List MethodId :=
  g.callGraph.entries.filter fun m => (g.cfg? m).isSome

/-- All program points, method by method. -/
def nodes (g : Icfg) : List ProgramPoint :=
  g.cfgs.flatMap fun (m, c) => c.nodes.map (⟨·, m⟩)

/-- The edges that leave a program point. -/
def outEdges (g : Icfg) (n : ProgramPoint) : List FlowEdge :=
  g.edges.filter (·.source = n)

/-- The edges that lead to a program point. -/
def inEdges (g : Icfg) (n : ProgramPoint) : List FlowEdge :=
  g.edges.filter (·.target = n)

/-- The targets of the edges that leave a program point. -/
def succs (g : Icfg) (n : ProgramPoint) : List ProgramPoint :=
  (g.outEdges n).map (·.target)

/-- The sources of the edges that lead to a program point. -/
def preds (g : Icfg) (n : ProgramPoint) : List ProgramPoint :=
  (g.inEdges n).map (·.source)

/-- The statement at a program point. -/
def at? (g : Icfg) (n : ProgramPoint) : Option Stmt :=
  (g.cfg? n.method).bind (·.body.at? n.point)

/-- The call sites with their program points. -/
def callSites (g : Icfg) : List CallSite :=
  g.cfgs.flatMap fun (m, c) => c.body.calls.map fun (i, _) => ⟨i, m⟩

/-- The callees of a call site that have a control flow graph. -/
def callees (g : Icfg) (s : CallSite) : List MethodId :=
  (g.callGraph.callees s).filter fun m => (g.cfg? m).isSome

/-- Where control goes on in the calling method after a call. -/
def returnSites (g : Icfg) (s : CallSite) : List ProgramPoint :=
  match g.cfg? s.method with
  | some c => (c.succs (.stmt s.index)).map (⟨·, s.method⟩)
  | none => []

/-- The written form of a program point. -/
def nodeText (g : Icfg) (n : ProgramPoint) : String :=
  let number := match g.cfg? n.method with
    | some c => c.body.number n.point
    | none => -1
  n.method.text ++ "[" ++ toString number ++ "]"

end Icfg

end TacFlow
