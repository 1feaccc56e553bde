import TacFlow.Flow.Building
import TacFlow.Proofs.Index

/-!
# What building a control flow graph gives

The graph that is built edge by edge is the control flow graph of the body, and what is filed under a node are
the edges that leave it and those that enter it.
-/

namespace TacFlow.Cfg

/-- Edges that are added one by one stand behind the others, and are filed one by one. -/
theorem Filed.foldl_addEdge (es : List Edge) (g : Filed) :
    es.foldl addEdge g = ⟨{ g.graph with edges := g.graph.edges ++ es },
      g.index.addAll Edge.source Edge.target es⟩ := by
  induction es generalizing g with
  | nil => simp [EdgeIndex.addAll]
  | cons e es ih => simp [ih, addEdge, Cfg.addEdge, EdgeIndex.addAll]

/-- Building a graph is adding the edges of the body one by one. -/
theorem build_eq_foldl (b : Body) : build b = (ofBody b).edges.foldl Filed.addEdge (.start b) := by
  rw [build, ofBody, List.foldl_cons, List.foldl_flatMap]

/-- **The graph that is built is the control flow graph.** -/
theorem graph_build (b : Body) : (build b).graph = ofBody b := by
  rw [build_eq_foldl, Filed.foldl_addEdge]
  rfl

/-- **What is filed with it is what leaves and what enters each node.** -/
theorem index_build (b : Body) (p : Point) :
    (build b).index.outEdges p = (ofBody b).outEdges p ∧
      (build b).index.inEdges p = (ofBody b).inEdges p := by
  have hfiles : (build b).index.Files Edge.source Edge.target (ofBody b).edges := by
    rw [build_eq_foldl, Filed.foldl_addEdge]
    exact EdgeIndex.files_empty.addAll _
  exact ⟨hfiles.outEdges p, hfiles.inEdges p⟩

end TacFlow.Cfg
