import TacFlow.Flow.Cfg
import TacFlow.Index

/-!
# Building control flow graphs

A control flow graph is built edge by edge, first the edge into the body and then those out of each
statement. What leaves and what enters a node is filed on the way.
-/

namespace TacFlow.Cfg

/-- A control flow graph with its edges filed by both their ends. -/
structure Filed where
  graph : Cfg
  index : EdgeIndex Point Edge

namespace Filed

/-- The graph of a body without edges. -/
def start (b : Body) : Filed :=
  ⟨⟨b, []⟩, .empty⟩

/-- Adds an edge and files it. -/
def addEdge (g : Filed) (e : Edge) : Filed :=
  ⟨g.graph.addEdge e, g.index.add e.source e.target e⟩

end Filed

/-- Builds the control flow graph of a body. -/
def build (b : Body) : Filed :=
  b.stmts.zipIdx.foldl (fun g (s, i) => (edgesFrom b i s).foldl Filed.addEdge g)
    ((Filed.start b).addEdge (entryEdge b))

end TacFlow.Cfg
