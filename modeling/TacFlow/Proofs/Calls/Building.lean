import TacFlow.Calls.Building
import TacFlow.Proofs.Calls.Reachability
import TacFlow.Proofs.Index

/-!
# What building graphs of calls gives

The queue of methods makes the same steps as the search that lists what is reachable, so the call graph that
is built is the one that class hierarchy analysis defines. Whatever is added to a call graph, the callees and
the callers that are filed are those that its edges name; and what is filed under a program point are the
edges that leave it and those that enter it.
-/

namespace TacFlow

namespace CallGraph.Filed

variable {g : Filed} {h : Hierarchy} {m : MethodId} {queue : List MethodId} {fuel : Nat}

/-! ## What is filed -/

/-- What is filed is what the edges say. -/
structure Agrees (g : Filed) : Prop where
  callees (s : CallSite) : g.callees s = g.graph.callees s
  callers (m : MethodId) : g.callers m = g.graph.callers m

theorem agrees_empty : empty.Agrees :=
  ⟨fun _ => rfl, fun _ => rfl⟩

theorem Agrees.of_edges {graph : CallGraph} (hg : g.Agrees) (he : graph.edges = g.graph.edges) :
    ({ g with graph := graph } : Filed).Agrees where
  callees s := (hg.callees s).trans (by simp only [CallGraph.callees, edgesOutOf, he])
  callers m := (hg.callers m).trans (by simp only [CallGraph.callers, edgesInto, he])

theorem Agrees.addEntry (hg : g.Agrees) (m : MethodId) : (g.addEntry m).Agrees := by
  have hedges : (g.graph.addEntry m).edges = g.graph.edges := by
    unfold CallGraph.addEntry
    split <;> rfl
  exact hg.of_edges hedges

theorem Agrees.addReachable (hg : g.Agrees) (m : MethodId) : (g.addReachable m).1.Agrees := by
  have hedges : (g.graph.addReachable m).1.edges = g.graph.edges := by
    unfold CallGraph.addReachable
    split <;> rfl
  exact hg.of_edges hedges

/-- **Adding an edge keeps the agreement**: its ends are filed just if they are not known of each other. -/
theorem Agrees.addEdge (hg : g.Agrees) (e : CallEdge) : (g.addEdge e).1.Agrees := by
  by_cases he : e ∈ g.graph.edges
  · simpa [Filed.addEdge, CallGraph.addEdge, he] using hg
  · have hnew : g.graph.addEdge e = ({ g.graph with edges := g.graph.edges ++ [e] }, true) := if_neg he
    rw [Filed.addEdge, hnew]
    refine ⟨fun s => ?_, fun m => ?_⟩
    · simp only [Index.fileOnce_apply (hg.callees s), CallGraph.callees, edgesOutOf, List.filter_append,
        List.map_append]
      by_cases hs : s = e.site <;> simp [hs, eq_comm]
    · simp only [Index.fileOnce_apply (hg.callers m), CallGraph.callers, edgesInto, List.filter_append,
        List.map_append]
      by_cases hm : m = e.callee <;> simp [hm, eq_comm]

/-! ## What is added -/

/-- Adds some edges. -/
def addEdges (g : Filed) (es : List CallEdge) : Filed :=
  es.foldl (fun g e => (g.addEdge e).1) g

theorem Agrees.addEdges (hg : g.Agrees) (es : List CallEdge) : (g.addEdges es).Agrees :=
  List.foldlRecOn _ _ hg fun _ hg e _ => hg.addEdge e

/-- Edges that are all new stand behind the others. -/
theorem graph_addEdges {es : List CallEdge} (hes : es.Nodup) (hnew : ∀ e ∈ es, e ∉ g.graph.edges) :
    (g.addEdges es).graph = { g.graph with edges := g.graph.edges ++ es } := by
  induction es generalizing g with
  | nil => simp [addEdges]
  | cons e es ih =>
      obtain ⟨he, hes⟩ := List.nodup_cons.mp hes
      have hgraph : (g.addEdge e).1.graph = { g.graph with edges := g.graph.edges ++ [e] } := by
        simp [Filed.addEdge, CallGraph.addEdge, hnew e List.mem_cons_self]
      have hrest : ∀ d ∈ es, d ∉ (g.addEdge e).1.graph.edges := by
        intro d hd
        simp only [hgraph, List.mem_append, List.mem_singleton, not_or]
        exact ⟨hnew d (List.mem_cons_of_mem e hd), fun hq => he (hq ▸ hd)⟩
      have hstep := ih hes hrest
      rw [hgraph, List.append_assoc] at hstep
      exact hstep

theorem addTargets_eq (kind : CallKind) (site : CallSite) (targets : List MethodId) :
    addTargets kind site targets (g, queue) =
      (g.addEdges (targets.map (⟨kind, site, ·⟩)), queue ++ targets) := by
  induction targets generalizing g queue with
  | nil => simp [addTargets, addEdges]
  | cons t targets ih =>
      rw [addTargets, List.foldl_cons, ← addTargets, ih]
      simp [addEdges]

/-- The calls of a method add the edges out of it, and put what it calls into the queue. -/
theorem addCalls_eq : addCalls h m (g, queue) = (g.addEdges (h.callEdges m), queue ++ h.calledBy m) := by
  unfold addCalls Hierarchy.calledBy Hierarchy.callEdges
  cases h.body? m with
  | none => simp [addEdges]
  | some b =>
      dsimp only
      generalize b.calls = calls
      induction calls generalizing g queue with
      | nil => simp [addEdges]
      | cons c calls ih =>
          rw [List.foldl_cons, addTargets_eq, ih]
          simp [addEdges, List.foldl_append, Function.comp_def]

/-! ## The loop -/

theorem Agrees.explore (hg : g.Agrees) : (explore h fuel (g, queue)).Agrees := by
  induction fuel generalizing g queue with
  | zero => exact hg
  | succ fuel ih =>
      cases queue with
      | nil => exact hg
      | cons m queue =>
          have hreach := hg.addReachable m
          rw [Filed.explore]
          split
          · exact ih hg
          · rename_i g' hnew
            rw [hnew] at hreach
            rw [addCalls_eq]
            exact ih (hreach.addEdges _)

/-- **The loop makes the steps of the search.** -/
theorem graph_explore (hedges : g.graph.edges = g.graph.reachable.flatMap h.callEdges) :
    (explore h fuel (g, queue)).graph =
      let reachable := Search.run h.calledBy fuel queue g.graph.reachable
      ⟨g.graph.entries, reachable, reachable.flatMap h.callEdges⟩ := by
  induction fuel generalizing g queue with
  | zero => simp [explore, Search.run, ← hedges]
  | succ fuel ih =>
      cases queue with
      | nil => simp [explore, Search.run, ← hedges]
      | cons m queue =>
          rw [explore, Search.run]
          by_cases hm : m ∈ g.graph.reachable
          · simp only [addReachable, CallGraph.addReachable, hm, if_true]
            exact ih hedges
          · simp only [addReachable, CallGraph.addReachable, hm, if_false, addCalls_eq]
            -- the edges out of a new method are new, for those there are leave methods seen before
            have hnew : ∀ e ∈ h.callEdges m, e ∉ g.graph.edges := by
              intro e he hmem
              rw [hedges] at hmem
              obtain ⟨m', hm', he'⟩ := List.mem_flatMap.mp hmem
              rw [(Hierarchy.mem_callEdges.mp he).1.symm.trans (Hierarchy.mem_callEdges.mp he').1] at hm
              exact hm hm'
            have hgraph := graph_addEdges (g := { g with graph := { g.graph with
              reachable := g.graph.reachable ++ [m] } }) (Hierarchy.nodup_callEdges m) hnew
            rw [ih (by rw [hgraph]; simp [hedges]), hgraph]

end CallGraph.Filed

/-- **The call graph that is built is that of class hierarchy analysis**, with the callees of every call site
and the callers of every method filed. -/
theorem Hierarchy.graph_fileCallGraph (h : Hierarchy) (entry : MethodId) :
    (h.fileCallGraph entry).graph = h.callGraph entry ∧
      (∀ s, (h.fileCallGraph entry).callees s = (h.callGraph entry).callees s) ∧
      ∀ m, (h.fileCallGraph entry).callers m = (h.callGraph entry).callers m := by
  have hgraph : (h.fileCallGraph entry).graph = h.callGraph entry :=
    CallGraph.Filed.graph_explore rfl
  have hagrees : (h.fileCallGraph entry).Agrees :=
    (CallGraph.Filed.agrees_empty.addEntry entry).explore
  exact ⟨hgraph, fun s => hgraph ▸ hagrees.callees s, fun m => hgraph ▸ hagrees.callers m⟩

/-! ## Interprocedural graphs -/

namespace Icfg

/-- Edges that are added one by one stand behind the others, and are filed one by one. -/
theorem Filed.foldl_addEdge (es : List FlowEdge) (g : Filed) :
    es.foldl addEdge g = ⟨{ g.graph with edges := g.graph.edges ++ es },
      g.index.addAll FlowEdge.source FlowEdge.target es⟩ := by
  induction es generalizing g with
  | nil => simp [EdgeIndex.addAll]
  | cons e es ih => simp [ih, addEdge, EdgeIndex.addAll]

variable (cg : CallGraph) (body? : MethodId → Option Body)

/-- Building a graph is adding the edges of all program points one by one. -/
theorem build_eq_foldl :
    build cg body? = (ofCallGraph cg body?).edges.foldl Filed.addEdge (.start cg body?) := by
  simp only [build, ofCallGraph, List.foldl_flatMap, List.foldl_append]
  rfl

/-- **The graph that is built is the interprocedural control flow graph.** -/
theorem graph_build : (build cg body?).graph = ofCallGraph cg body? := by
  rw [build_eq_foldl, Filed.foldl_addEdge]
  rfl

/-- **What is filed with it is what leaves and what enters each program point.** -/
theorem index_build (n : ProgramPoint) :
    (build cg body?).index.outEdges n = (ofCallGraph cg body?).outEdges n ∧
      (build cg body?).index.inEdges n = (ofCallGraph cg body?).inEdges n := by
  have hfiles : (build cg body?).index.Files FlowEdge.source FlowEdge.target
      (ofCallGraph cg body?).edges := by
    rw [build_eq_foldl, Filed.foldl_addEdge]
    exact EdgeIndex.files_empty.addAll _
  exact ⟨hfiles.outEdges n, hfiles.inEdges n⟩

end Icfg

end TacFlow
