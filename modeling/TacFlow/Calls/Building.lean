import TacFlow.Calls.HierarchyAnalysis
import TacFlow.Calls.Icfg
import TacFlow.Index

/-!
# Building graphs of calls

A call graph is built from its entry method by a queue of methods. A method that comes up for the first time
is reachable, and the targets of its calls join the queue; the callees of a call site and the callers of a
method are filed on the way, each once. The interprocedural graph over a call graph is built node by node,
and what leaves and what enters a program point is filed.
-/

namespace TacFlow

namespace CallGraph

/-- A call graph with the callees of each call site and the callers of each method filed. -/
structure Filed where
  graph : CallGraph
  callees : Index CallSite MethodId
  callers : Index MethodId CallSite

namespace Filed

/-- The call graph without methods. -/
def empty : Filed :=
  ⟨.empty, .empty, .empty⟩

/-- Adds an entry method. -/
def addEntry (g : Filed) (m : MethodId) : Filed :=
  { g with graph := g.graph.addEntry m }

/-- Makes a method reachable and tells whether it is new. -/
def addReachable (g : Filed) (m : MethodId) : Filed × Bool :=
  let (graph, new) := g.graph.addReachable m
  ({ g with graph := graph }, new)

/-- Adds an edge, files its ends if it is new, and tells whether it is. -/
def addEdge (g : Filed) (e : CallEdge) : Filed × Bool :=
  match g.graph.addEdge e with
  | (graph, true) => (⟨graph, g.callees.fileOnce e.site e.callee, g.callers.fileOnce e.callee e.site⟩, true)
  | (_, false) => (g, false)

/-- Adds an edge for each target of a call, and puts the target into the queue. -/
def addTargets (kind : CallKind) (site : CallSite) (targets : List MethodId)
    (found : Filed × List MethodId) : Filed × List MethodId :=
  targets.foldl (fun (g, queue) t => ((g.addEdge ⟨kind, site, t⟩).1, queue ++ [t])) found

/-- Adds the targets of all calls in a method. -/
def addCalls (h : Hierarchy) (m : MethodId) (found : Filed × List MethodId) : Filed × List MethodId :=
  match h.body? m with
  | none => found
  | some b => b.calls.foldl
      (fun found (i, c) => addTargets c.kind ⟨i, m⟩ (h.callTargets c.kind c.target) found) found

/-- Takes methods from the front of the queue until it is empty. Each one costs one unit of fuel. -/
def explore (h : Hierarchy) : Nat → Filed × List MethodId → Filed
  | 0, (g, _) => g
  | _ + 1, (g, []) => g
  | fuel + 1, (g, m :: queue) =>
    match g.addReachable m with
    | (_, false) => explore h fuel (g, queue)
    | (g, true) => explore h fuel (addCalls h m (g, queue))

end Filed

end CallGraph

/-- Builds the call graph from an entry method. -/
def Hierarchy.fileCallGraph (h : Hierarchy) (entry : MethodId) : CallGraph.Filed :=
  CallGraph.Filed.explore h (Search.enough (h.declaredMethods.map (·.id)) h.calledBy [entry])
    (CallGraph.Filed.empty.addEntry entry, [entry])

namespace Icfg

/-- An interprocedural control flow graph with its edges filed by both their ends. -/
structure Filed where
  graph : Icfg
  index : EdgeIndex ProgramPoint FlowEdge

namespace Filed

/-- The graph over a call graph, without edges. -/
def start (cg : CallGraph) (body? : MethodId → Option Body) : Filed :=
  ⟨⟨cg, cg.reachable.filterMap fun m => (body? m).map fun b => (m, .ofBody b), []⟩, .empty⟩

/-- Adds an edge and files it. -/
def addEdge (g : Filed) (e : FlowEdge) : Filed :=
  ⟨{ g.graph with edges := g.graph.edges ++ [e] }, g.index.add e.source e.target e⟩

end Filed

/-- Builds the interprocedural control flow graph over a call graph: the edges within a method that leave a
node, and then those that its call contributes. -/
def build (cg : CallGraph) (body? : MethodId → Option Body) : Filed :=
  let cfgs := (Filed.start cg body?).graph.cfgs
  cfgs.foldl (fun g (m, c) => c.nodes.foldl (fun g p =>
      (callEdges cg cfgs m c p).foldl Filed.addEdge ((localEdges m c p).foldl Filed.addEdge g)) g)
    (.start cg body?)

end Icfg

end TacFlow
