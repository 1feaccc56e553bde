import TacFlow.Proofs.Calls.FixedPoint

/-!
# The graphs of the methods, joined along the call graph

The interprocedural graph is the graphs of the reachable methods next to each other, with edges into
the callees of every call and back, and with nothing else. A body may have several edges between the
same two points, for a branch to the next statement or for cases with one target, and each of them has
an edge of its own. So what is compared are not the sets of edges but the lists, up to their order.

The edges are made point by point. Taking a list apart by keys, and putting it together again key by
key, is the argument throughout: for the edges of a body by their sources, and for the edges of the
whole graph by their sources and by their targets.
-/

namespace TacFlow

open List (Perm)

/-! ## What is joined -/

/-- The call site and the callee that an edge of a call carries. -/
def FlowKind.callOf? : FlowKind → Option (CallSite × MethodId)
  | .call site callee => some (site, callee)
  | .ret site callee _ => some (site, callee)
  | _ => none

namespace Icfg

variable {cg : CallGraph} {code : MethodId → Option Body} {m k : MethodId} {b b' : Body} {i : Nat}
  {p : Point} {e : FlowEdge}

/-- The reachable methods that have a body, with their bodies. -/
def bodies (cg : CallGraph) (code : MethodId → Option Body) : List (MethodId × Body) :=
  cg.reachable.filterMap fun m => (code m).map (m, ·)

/-- The edges past calls are marked. -/
def passKind (b : Body) (p : Point) : FlowKind :=
  match b.at? p with
  | some (.invoke _ _) => .callToReturn
  | _ => .normal

/-- An edge for each edge of a body. -/
def edgesWithin (m : MethodId) (b : Body) : List FlowEdge :=
  (Cfg.ofBody b).edges.map fun e => ⟨⟨e.source, m⟩, ⟨e.target, m⟩, passKind b e.source⟩

/-- An edge from a call into a callee with a body, and an edge back for each successor of the call. A
callee without a body has none. -/
def edgesOfCallee (code : MethodId → Option Body) (m : MethodId) (b : Body) (i : Nat) (k : MethodId) :
    List FlowEdge :=
  match code k with
  | some b' => ⟨⟨.stmt i, m⟩, ⟨.entry, k⟩, .call ⟨i, m⟩ k⟩ ::
      ((Cfg.ofBody b).succs (.stmt i)).map fun q =>
        ⟨⟨.exit, k⟩, ⟨q, m⟩, .ret ⟨i, m⟩ k b'.returnVars⟩
  | none => []

/-- The edges of a call, for all its callees. -/
def edgesOfCall (cg : CallGraph) (code : MethodId → Option Body) (m : MethodId) (b : Body) (i : Nat) :
    List FlowEdge :=
  (cg.callees ⟨i, m⟩).flatMap (edgesOfCallee code m b i)

def edgesAcross (cg : CallGraph) (code : MethodId → Option Body) (m : MethodId) (b : Body) :
    List FlowEdge :=
  b.calls.flatMap fun call => edgesOfCall cg code m b call.1

/-! ## The edges of the graph -/

theorem cfgs_eq (cg : CallGraph) (code : MethodId → Option Body) :
    (ofCallGraph cg code).cfgs = (bodies cg code).map fun x => (x.1, .ofBody x.2) := by
  simp only [ofCallGraph, bodies, List.map_filterMap, Option.map_map]
  rfl

theorem mem_bodies : (m, b) ∈ bodies cg code ↔ m ∈ cg.reachable ∧ code m = some b := by
  simp only [bodies, List.mem_filterMap, Option.map_eq_some_iff, Prod.mk.injEq]
  constructor
  · rintro ⟨m', hm, b', hb, rfl, rfl⟩
    exact ⟨hm, hb⟩
  · rintro ⟨hm, hb⟩
    exact ⟨m, hm, b, hb, rfl, rfl⟩

theorem kind_eq_passKind (b : Body) (p : Point) :
    (if ((b.at? p).bind Stmt.call?).isSome then FlowKind.callToReturn else .normal) =
      passKind b p := by
  unfold passKind
  cases b.at? p with
  | none => rfl
  | some s => cases s <;> rfl

/-- Made point by point, the edges within a method are those of its body. -/
theorem localEdges_eq (m : MethodId) (b : Body) :
    (Cfg.ofBody b).nodes.flatMap (localEdges m (.ofBody b)) = edgesWithin m b := by
  rw [edgesWithin, ← Cfg.flatMap_outEdges, List.map_flatMap]
  refine List.flatMap_congr fun p _ => ?_
  simp only [localEdges, Cfg.succs, List.map_map]
  refine List.map_congr_left fun e he => ?_
  obtain rfl : e.source = p := by simpa using (List.mem_filter.mp he).2
  exact congrArg _ (kind_eq_passKind b e.source)

/-- A statement contributes the edges of its call, if it is one. -/
theorem callEdges_stmt {s : Stmt} (hs : b.stmts[i]? = some s)
    (hreach : ∀ k ∈ cg.callees ⟨i, m⟩, k ∈ cg.reachable) :
    callEdges cg (ofCallGraph cg code).cfgs m (.ofBody b) (.stmt i) =
      (s.call?.map (i, ·)).toList.flatMap fun call => edgesOfCall cg code m b call.1 := by
  have hcall : ((Cfg.ofBody b).body.at? (.stmt i)).bind Stmt.call? = s.call? := by
    change b.stmts[i]?.bind Stmt.call? = s.call?
    rw [hs, Option.bind_some]
  unfold callEdges
  rw [hcall]
  cases s.call? with
  | none => rfl
  | some call =>
      simp only [Option.map_some, Option.toList_some, List.flatMap_singleton]
      -- a callee is reachable, so it has a graph exactly if it has a body
      refine List.flatMap_congr fun k hk => ?_
      have hlookup : lookup (ofCallGraph cg code).cfgs k = (ofCallGraph cg code).cfg? k := rfl
      rw [hlookup]
      unfold edgesOfCallee
      cases hc : code k with
      | none =>
          have hnone : (ofCallGraph cg code).cfg? k = none := by
            refine Option.eq_none_iff_forall_ne_some.mpr fun c hq => ?_
            obtain ⟨_, b', hb', _⟩ := cfg?_eq_some.mp hq
            exact absurd (hc.symm.trans hb') (by simp)
          rw [hnone]
      | some b' =>
          rw [cfg?_ofBody (hreach k hk) hc]
          rfl

/-- Made point by point, the edges across methods are those of the calls of the body. -/
theorem callEdges_eq (hreach : ∀ i, ∀ k ∈ cg.callees ⟨i, m⟩, k ∈ cg.reachable) :
    (Cfg.ofBody b).nodes.flatMap (callEdges cg (ofCallGraph cg code).cfgs m (.ofBody b)) =
      edgesAcross cg code m b := by
  have hpoints : (Cfg.ofBody b).nodes.flatMap
      (callEdges cg (ofCallGraph cg code).cfgs m (.ofBody b)) = b.stmts.zipIdx.flatMap fun x =>
        callEdges cg (ofCallGraph cg code).cfgs m (.ofBody b) (.stmt x.2) := by
    -- the entry and the exit contribute nothing
    change b.points.flatMap _ = _
    rw [Body.flatMap_points]
    simp [callEdges]
  rw [hpoints, edgesAcross, Body.calls, List.filterMap_eq_flatMap_toList, List.flatMap_assoc]
  refine List.flatMap_congr ?_
  rintro ⟨s, j⟩ hj
  exact callEdges_stmt (List.mk_mem_zipIdx_iff_getElem?.mp hj) (hreach j)

/-- **The edges are those of the bodies, and those of their calls.** -/
theorem edges_perm (hreach : ∀ m ∈ cg.reachable, ∀ i, ∀ k ∈ cg.callees ⟨i, m⟩, k ∈ cg.reachable) :
    (ofCallGraph cg code).edges.Perm
      (((bodies cg code).flatMap fun x => edgesWithin x.1 x.2) ++
        (bodies cg code).flatMap fun x => edgesAcross cg code x.1 x.2) := by
  have hedges : (ofCallGraph cg code).edges = (bodies cg code).flatMap fun x =>
      (Cfg.ofBody x.2).nodes.flatMap fun p => localEdges x.1 (.ofBody x.2) p ++
        callEdges cg (ofCallGraph cg code).cfgs x.1 (.ofBody x.2) p := by
    change (ofCallGraph cg code).cfgs.flatMap (fun x => x.2.nodes.flatMap fun p =>
      localEdges x.1 x.2 p ++ callEdges cg (ofCallGraph cg code).cfgs x.1 x.2 p) = _
    rw [cfgs_eq, List.flatMap_map]
  rw [hedges]
  -- per method, its own edges are moved in front of those of its calls
  refine (Perm.flatMap_left _ ?_).trans (List.flatMap_append_perm _ _ _).symm
  rintro ⟨m, b⟩ hmem
  have hm := (mem_bodies.mp hmem).1
  rw [← callEdges_eq (hreach m hm), ← localEdges_eq m b]
  exact (List.flatMap_append_perm _ _ _).symm

/-! ## Nothing is made twice -/

theorem callOf?_of_mem_edgesOfCallee (he : e ∈ edgesOfCallee code m b i k) :
    e.kind.callOf? = some (⟨i, m⟩, k) := by
  unfold edgesOfCallee at he
  split at he
  · rcases List.mem_cons.mp he with rfl | he
    · rfl
    · obtain ⟨q, _, rfl⟩ := List.mem_map.mp he
      rfl
  · exact absurd he (by simp)

theorem callOf?_of_mem_edgesOfCall (he : e ∈ edgesOfCall cg code m b i) :
    ∃ k, e.kind.callOf? = some (⟨i, m⟩, k) := by
  obtain ⟨k, _, he⟩ := List.mem_flatMap.mp he
  exact ⟨k, callOf?_of_mem_edgesOfCallee he⟩

theorem callOf?_of_mem_edgesAcross (he : e ∈ edgesAcross cg code m b) :
    ∃ i k, e.kind.callOf? = some (⟨i, m⟩, k) := by
  obtain ⟨⟨i, _⟩, _, he⟩ := List.mem_flatMap.mp he
  exact ⟨i, callOf?_of_mem_edgesOfCall he⟩

/-- A call has one edge into each of its callees, and one back. -/
theorem nodup_edgesOfCall {call : Call} (hcall : (i, call) ∈ b.calls)
    (hcallees : (cg.callees ⟨i, m⟩).Nodup) : (edgesOfCall cg code m b i).Nodup := by
  obtain ⟨result, hs⟩ := Body.mem_calls.mp hcall
  refine nodup_flatMap_of_key (fun e => e.kind.callOf?.map (·.2)) id hcallees ?_ ?_
  · -- a call goes on at one point, so there is one edge back
    intro k _
    unfold edgesOfCallee
    rw [Cfg.succs_invoke hs]
    split
    · simp
    · exact List.nodup_nil
  · intro k _ e he
    rw [callOf?_of_mem_edgesOfCallee he]
    rfl

theorem nodup_edgesAcross (hcallees : ∀ s, (cg.callees s).Nodup) :
    (edgesAcross cg code m b).Nodup := by
  refine nodup_flatMap_of_key (fun e => e.kind.callOf?.map (·.1.index)) Prod.fst b.pairwise_calls ?_ ?_
  · rintro ⟨i, c⟩ hc
    exact nodup_edgesOfCall hc (hcallees _)
  · rintro ⟨i, c⟩ _ e he
    obtain ⟨k, hk⟩ := callOf?_of_mem_edgesOfCall he
    rw [hk]
    rfl

theorem pairwise_bodies (hn : cg.reachable.Nodup) :
    (bodies cg code).Pairwise fun x y => x.1 ≠ y.1 := by
  refine List.pairwise_filterMap.mpr (List.Pairwise.imp ?_ hn)
  intro m m' hne x hx y hy
  obtain ⟨b, _, rfl⟩ := Option.map_eq_some_iff.mp hx
  obtain ⟨b', _, rfl⟩ := Option.map_eq_some_iff.mp hy
  exact hne

theorem nodup_across (hn : cg.reachable.Nodup) (hcallees : ∀ s, (cg.callees s).Nodup) :
    ((bodies cg code).flatMap fun x => edgesAcross cg code x.1 x.2).Nodup := by
  refine nodup_flatMap_of_key (fun e => e.kind.callOf?.map (·.1.method)) Prod.fst
    (pairwise_bodies hn) ?_ ?_
  · exact fun _ _ => nodup_edgesAcross hcallees
  · rintro ⟨m, b⟩ _ e he
    obtain ⟨i, k, hk⟩ := callOf?_of_mem_edgesAcross he
    rw [hk]
    rfl

theorem nodup_nodes (hn : cg.reachable.Nodup) : (ofCallGraph cg code).nodes.Nodup := by
  rw [nodes, cfgs_eq, List.flatMap_map]
  refine nodup_flatMap_of_key (fun n => some n.method) Prod.fst (pairwise_bodies hn) ?_ ?_
  · rintro ⟨m, b⟩ _
    refine b.nodup_points.map ?_
    intro p q hpq
    exact congrArg ProgramPoint.point hpq
  · rintro ⟨m, b⟩ _ n hmem
    obtain ⟨p, _, rfl⟩ := List.mem_map.mp hmem
    rfl

/-! ## The ends of edges -/

/-- **Every edge begins at a point of the graph.** -/
theorem source_mem_nodes (he : e ∈ (ofCallGraph cg code).edges) :
    e.source ∈ (ofCallGraph cg code).nodes := by
  cases mem_edges_iff_joins.mp he with
  | normal hm _ hq => exact mem_nodes.mpr ⟨_, hm, Cfg.mem_points_of_mem_preds (Cfg.mem_preds_iff.mpr hq)⟩
  | callToReturn hm hs => exact mem_nodes.mpr ⟨_, hm, Body.stmt_mem_points hs⟩
  | call hm hs _ _ => exact mem_nodes.mpr ⟨_, hm, Body.stmt_mem_points hs⟩
  | ret _ _ _ hkc => exact mem_nodes.mpr ⟨_, hkc, Body.exit_mem_points _⟩

theorem callOf?_of_crosses (he : e ∈ (ofCallGraph cg code).edges)
    (hne : e.source.method ≠ e.target.method) : ∃ c, e.kind.callOf? = some c := by
  cases mem_edges_iff_joins.mp he with
  | normal _ _ _ => exact absurd rfl hne
  | callToReturn _ _ => exact absurd rfl hne
  | call _ _ _ _ => exact ⟨_, rfl⟩
  | ret _ _ _ _ => exact ⟨_, rfl⟩

/-- A call goes on at one point, which may be the exit of its method. -/
theorem returnSites_eq {result : Option Var} {call : Call}
    (hm : (ofCallGraph cg code).cfg? m = some (.ofBody b))
    (hs : b.stmts[i]? = some (.invoke result call)) :
    (ofCallGraph cg code).returnSites ⟨i, m⟩ = [⟨b.following i, m⟩] := by
  simp only [returnSites, hm, Cfg.succs_invoke hs]
  rfl

theorem ret_of_call_mem_edges {n n' : ProgramPoint} {s : CallSite}
    (he : (⟨n, n', .call s k⟩ : FlowEdge) ∈ (ofCallGraph cg code).edges) :
    ∃ b, code k = some b ∧ (ofCallGraph cg code).returnSites s ≠ [] ∧
      ∀ q ∈ (ofCallGraph cg code).returnSites s,
        (⟨⟨.exit, k⟩, q, .ret s k b.returnVars⟩ : FlowEdge) ∈ (ofCallGraph cg code).edges := by
  cases mem_edges_iff_joins.mp he with
  | call hm hs hk hkc =>
      refine ⟨_, (cfg?_eq_ofBody.mp hkc).2, ?_, fun q hq => ?_⟩
      · rw [returnSites_eq hm hs]
        simp
      · rw [returnSites_eq hm hs, List.mem_singleton] at hq
        rw [hq]
        exact ret_mem_edges hm hs hk hkc

theorem call_of_ret_mem_edges {n n' : ProgramPoint} {s : CallSite} {returned : List Var}
    (he : (⟨n, n', .ret s k returned⟩ : FlowEdge) ∈ (ofCallGraph cg code).edges) :
    (⟨⟨.stmt s.index, s.method⟩, ⟨.entry, k⟩, .call s k⟩ : FlowEdge) ∈
      (ofCallGraph cg code).edges := by
  cases mem_edges_iff_joins.mp he with
  | ret hm hs hk hkc => exact call_mem_edges hm hs hk hkc

/-! ## The result -/

/-- The graphs of the reachable methods, joined along a call graph. -/
structure IsJoined (cg : CallGraph) (code : MethodId → Option Body) (g : Icfg) : Prop where
  /-- The methods are those that are reachable and have a body, each once. -/
  mem_methods {m : MethodId} : m ∈ g.methods ↔ m ∈ cg.reachable ∧ ∃ b, code m = some b
  nodup_methods : g.methods.Nodup
  /-- The nodes are the points of their bodies, each once. -/
  mem_nodes {p : Point} {m : MethodId} : (⟨p, m⟩ : ProgramPoint) ∈ g.nodes ↔
    m ∈ cg.reachable ∧ ∃ b, code m = some b ∧ p ∈ b.points
  nodup_nodes : g.nodes.Nodup
  /-- The edges are, up to their order, those within the bodies and those of their calls. -/
  edges : g.edges.Perm (((bodies cg code).flatMap fun x => edgesWithin x.1 x.2) ++
    (bodies cg code).flatMap fun x => edgesAcross cg code x.1 x.2)
  /-- No edge of a call is there twice. -/
  nodup_across : ((bodies cg code).flatMap fun x => edgesAcross cg code x.1 x.2).Nodup
  /-- Every edge is listed once, where it begins. -/
  mem_outEdges {n : ProgramPoint} {e : FlowEdge} : e ∈ g.outEdges n ↔ e ∈ g.edges ∧ e.source = n
  outEdges : (g.nodes.flatMap g.outEdges).Perm g.edges
  /-- And it is listed once where it ends. -/
  mem_inEdges {n : ProgramPoint} {e : FlowEdge} : e ∈ g.inEdges n ↔ e ∈ g.edges ∧ e.target = n
  inEdges : (g.nodes.flatMap g.inEdges).Perm g.edges
  /-- An edge into a callee has an edge back from the exit to where the call goes on. -/
  returns {n n' : ProgramPoint} {s : CallSite} {k : MethodId} :
    (⟨n, n', .call s k⟩ : FlowEdge) ∈ g.edges → ∃ b, code k = some b ∧ g.returnSites s ≠ [] ∧
      ∀ q ∈ g.returnSites s, (⟨⟨.exit, k⟩, q, .ret s k b.returnVars⟩ : FlowEdge) ∈ g.edges
  /-- An edge back has its edge into the callee. -/
  called {n n' : ProgramPoint} {s : CallSite} {k : MethodId} {returned : List Var} :
    (⟨n, n', .ret s k returned⟩ : FlowEdge) ∈ g.edges →
      (⟨⟨.stmt s.index, s.method⟩, ⟨.entry, k⟩, .call s k⟩ : FlowEdge) ∈ g.edges
  /-- No other edge leads from one method to another. -/
  crosses {e : FlowEdge} : e ∈ g.edges → e.source.method ≠ e.target.method →
    ∃ c, e.kind.callOf? = some c

/-- **The interprocedural graph is the graphs of the methods, joined along the call graph**, for every
program and entry method. -/
theorem isJoined_icfg [Nesting] {p : Program} (hp : p.Parsed) (entry : MethodId) :
    IsJoined (p.hierarchy.callGraph entry) p.hierarchy.body? (p.icfg entry) := by
  have hleast := Hierarchy.isLeastCallGraph hp.classes_wellFormed entry
  have hcallees := (CallGraph.indexed_of_nodup hleast.nodup_edges).nodup_callees
  have hlinked : ∀ m b, p.hierarchy.body? m = some b → b.Linked :=
    fun m b hb => (hp.wellFormed hb).1.linked
  have hreach : ∀ m ∈ (p.hierarchy.callGraph entry).reachable, ∀ i,
      ∀ k ∈ (p.hierarchy.callGraph entry).callees ⟨i, m⟩,
        k ∈ (p.hierarchy.callGraph entry).reachable := by
    intro m _ i k hk
    obtain ⟨e, he, _, rfl⟩ := CallGraph.mem_callees.mp hk
    exact (hleast.ends he).2
  have hmethods : (p.icfg entry).methods =
      (bodies (p.hierarchy.callGraph entry) p.hierarchy.body?).map (·.1) := by
    rw [methods, cfgs_eq, List.map_map]
    rfl
  have hnodes : (p.icfg entry).nodes.Nodup := nodup_nodes hleast.nodup_reachable
  exact {
    mem_methods := by
      rw [hmethods]
      simp [mem_bodies]
    nodup_methods := by
      rw [hmethods]
      exact List.pairwise_map.mpr (pairwise_bodies hleast.nodup_reachable)
    mem_nodes := by
      intro q m
      simp only [mem_nodes, cfg?_eq_some]
      constructor
      · rintro ⟨_, ⟨hm, b, hb, rfl⟩, hq⟩
        exact ⟨hm, b, hb, hq⟩
      · rintro ⟨hm, b, hb, hq⟩
        exact ⟨_, ⟨hm, b, hb, rfl⟩, hq⟩
    nodup_nodes := hnodes
    edges := edges_perm hreach
    nodup_across := nodup_across hleast.nodup_reachable hcallees
    mem_outEdges := by simp [Icfg.outEdges]
    outEdges := flatMap_filter_perm hnodes fun _ he => source_mem_nodes he
    mem_inEdges := InterConstants.mem_inEdges
    inEdges := flatMap_filter_perm hnodes fun _ he => target_mem_nodes hlinked he
    returns := ret_of_call_mem_edges
    called := call_of_ret_mem_edges
    crosses := callOf?_of_crosses }

/-- The method that calls itself is joined to its caller and to itself. -/
theorem isJoined_icfg_program :
    IsJoined (Recursion.program.hierarchy.callGraph Recursion.main.method)
      Recursion.program.hierarchy.body? (Recursion.program.icfg Recursion.main.method) :=
  isJoined_icfg Recursion.parsed_program Recursion.main.method

end Icfg

end TacFlow
