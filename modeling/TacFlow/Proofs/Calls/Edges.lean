import TacFlow.Calls.Icfg
import TacFlow.Proofs.Calls.Reachability

/-!
# The edges between methods

What the interprocedural graph over a call graph looks like, method by method. It has the points of
every reachable method with a body, and the edges of that method. At a call it has, besides the edge
that passes the call by, an edge to the entry of every callee with a body, and one back from the exit
of the callee to what follows the call.

The graphs of the methods are kept in a list, with one entry for each mention of a method. That they
are looked up in it and gone through is the same, because all entries of a method are equal.
-/

namespace TacFlow.Icfg

variable {cg : CallGraph} {code : MethodId → Option Body} {m k : MethodId} {b b' : Body} {i : Nat}
  {p q : Point} {e : FlowEdge} {c : Cfg} {result : Option Var} {call : Call}

/-! ## Methods and points -/

theorem mem_cfgs : (m, c) ∈ (ofCallGraph cg code).cfgs ↔
    m ∈ cg.reachable ∧ ∃ b, code m = some b ∧ c = .ofBody b := by
  change (m, c) ∈ cg.reachable.filterMap (fun m => (code m).map fun b => (m, Cfg.ofBody b)) ↔ _
  rw [List.mem_filterMap]
  constructor
  · rintro ⟨m', hm, hq⟩
    obtain ⟨b, hb, hq⟩ := Option.map_eq_some_iff.mp hq
    cases hq
    exact ⟨hm, b, hb, rfl⟩
  · rintro ⟨hm, b, hb, rfl⟩
    exact ⟨m, hm, by rw [hb]; rfl⟩

theorem cfg?_eq_some : (ofCallGraph cg code).cfg? m = some c ↔
    m ∈ cg.reachable ∧ ∃ b, code m = some b ∧ c = .ofBody b := by
  rw [← mem_cfgs]
  unfold cfg? lookup
  constructor
  · intro hc
    obtain ⟨⟨m', c'⟩, hfind, rfl⟩ := Option.map_eq_some_iff.mp hc
    have hm : m' = m := by simpa using List.find?_some hfind
    exact hm ▸ List.mem_of_find?_eq_some hfind
  · intro hc
    have hfound : ((ofCallGraph cg code).cfgs.find? (·.1 = m)).isSome :=
      List.find?_isSome.mpr ⟨(m, c), hc, by simp⟩
    obtain ⟨⟨m', c'⟩, hfind⟩ := Option.isSome_iff_exists.mp hfound
    have hm : m' = m := by simpa using List.find?_some hfind
    subst hm
    -- the entry that is found and the given one are made from the same body
    obtain ⟨_, b, hb, rfl⟩ := mem_cfgs.mp hc
    obtain ⟨_, b', hb', rfl⟩ := mem_cfgs.mp (List.mem_of_find?_eq_some hfind)
    rw [hb] at hb'
    cases hb'
    rw [hfind]
    rfl

/-- A reachable method has the graph of its body. -/
theorem cfg?_eq_ofBody : (ofCallGraph cg code).cfg? m = some (.ofBody b) ↔
    m ∈ cg.reachable ∧ code m = some b := by
  rw [cfg?_eq_some]
  constructor
  · rintro ⟨hm, b', hb', heq⟩
    have hbody : b = b' := congrArg Cfg.body heq
    exact ⟨hm, hbody ▸ hb'⟩
  · rintro ⟨hm, hb⟩
    exact ⟨hm, b, hb, rfl⟩

theorem cfg?_ofBody (hm : m ∈ cg.reachable) (hb : code m = some b) :
    (ofCallGraph cg code).cfg? m = some (.ofBody b) :=
  cfg?_eq_ofBody.mpr ⟨hm, hb⟩

/-- The methods are the reachable ones with a body. -/
theorem mem_methods_iff : m ∈ (ofCallGraph cg code).methods ↔
    m ∈ cg.reachable ∧ ∃ b, code m = some b := by
  unfold methods
  rw [List.mem_map]
  constructor
  · rintro ⟨⟨m', c⟩, hc, rfl⟩
    obtain ⟨hm, b, hb, _⟩ := mem_cfgs.mp hc
    exact ⟨hm, b, hb⟩
  · rintro ⟨hm, b, hb⟩
    exact ⟨(m, .ofBody b), mem_cfgs.mpr ⟨hm, b, hb, rfl⟩, rfl⟩

theorem mem_nodes : (⟨p, m⟩ : ProgramPoint) ∈ (ofCallGraph cg code).nodes ↔
    ∃ c, (ofCallGraph cg code).cfg? m = some c ∧ p ∈ c.nodes := by
  unfold nodes
  rw [List.mem_flatMap]
  constructor
  · rintro ⟨⟨m', c⟩, hc, hp⟩
    obtain ⟨p', hp', hq⟩ := List.mem_map.mp hp
    cases hq
    exact ⟨c, cfg?_eq_some.mpr (mem_cfgs.mp hc), hp'⟩
  · rintro ⟨c, hc, hp⟩
    exact ⟨(m, c), mem_cfgs.mpr (cfg?_eq_some.mp hc), List.mem_map_of_mem hp⟩

theorem at?_ofCallGraph (hm : (ofCallGraph cg code).cfg? m = some (.ofBody b)) :
    (ofCallGraph cg code).at? ⟨p, m⟩ = b.at? p := by
  unfold at?
  rw [hm]
  rfl

theorem at?_stmt {s : Stmt} (hm : (ofCallGraph cg code).cfg? m = some (.ofBody b))
    (hs : b.stmts[i]? = some s) : (ofCallGraph cg code).at? ⟨.stmt i, m⟩ = some s :=
  (at?_ofCallGraph hm).trans hs

/-! ## Edges -/

theorem mem_edges : e ∈ (ofCallGraph cg code).edges ↔
    ∃ m c p, (ofCallGraph cg code).cfg? m = some c ∧ p ∈ c.nodes ∧
      (e ∈ localEdges m c p ∨ e ∈ callEdges cg (ofCallGraph cg code).cfgs m c p) := by
  change e ∈ (ofCallGraph cg code).cfgs.flatMap (fun x => x.2.nodes.flatMap fun p =>
    localEdges x.1 x.2 p ++ callEdges cg (ofCallGraph cg code).cfgs x.1 x.2 p) ↔ _
  simp only [List.mem_flatMap, List.mem_append, Prod.exists]
  constructor
  · rintro ⟨m, c, hc, p, hp, he⟩
    exact ⟨m, c, p, cfg?_eq_some.mpr (mem_cfgs.mp hc), hp, he⟩
  · rintro ⟨m, c, p, hc, hp, he⟩
    exact ⟨m, c, mem_cfgs.mpr (cfg?_eq_some.mp hc), p, hp, he⟩

/-- Control passes on from a call to what follows it, and to nothing else. -/
theorem mem_succs_invoke (hs : b.stmts[i]? = some (.invoke result call)) :
    q ∈ (Cfg.ofBody b).succs (.stmt i) ↔ q = b.following i := by
  rw [Cfg.mem_succs_stmt]
  constructor
  · rintro ⟨s, hs', e, he, rfl⟩
    rw [hs] at hs'
    cases hs'
    cases List.mem_singleton.mp he
    rfl
  · rintro rfl
    exact ⟨_, hs, _, List.mem_singleton.mpr rfl, rfl⟩

theorem following_mem_succs (hs : b.stmts[i]? = some (.invoke result call)) :
    b.following i ∈ (Cfg.ofBody b).succs (.stmt i) :=
  (mem_succs_invoke hs).mpr rfl

theorem bind_call?_of_invoke (hs : b.stmts[i]? = some (.invoke result call)) :
    (b.at? (.stmt i)).bind Stmt.call? = some call := by
  change b.stmts[i]?.bind Stmt.call? = some call
  rw [hs]
  rfl

section

variable (hm : (ofCallGraph cg code).cfg? m = some (.ofBody b))

include hm

/-- The edges of a body are edges of the whole, and those that pass a call by are marked. -/
theorem local_mem_edges (hq : q ∈ (Cfg.ofBody b).succs p) :
    (⟨⟨p, m⟩, ⟨q, m⟩, if ((b.at? p).bind Stmt.call?).isSome then .callToReturn else .normal⟩ :
      FlowEdge) ∈ (ofCallGraph cg code).edges := by
  have hp : p ∈ (Cfg.ofBody b).nodes := Cfg.mem_points_of_mem_preds (Cfg.mem_preds_iff.mpr hq)
  refine mem_edges.mpr ⟨m, _, p, hm, hp, Or.inl ?_⟩
  exact List.mem_map.mpr ⟨q, hq, rfl⟩

theorem normal_mem_edges (hp : (b.at? p).bind Stmt.call? = none)
    (hq : q ∈ (Cfg.ofBody b).succs p) :
    (⟨⟨p, m⟩, ⟨q, m⟩, .normal⟩ : FlowEdge) ∈ (ofCallGraph cg code).edges := by
  have he := local_mem_edges hm hq
  rwa [hp] at he

variable (hs : b.stmts[i]? = some (.invoke result call))

include hs

theorem callToReturn_mem_edges :
    (⟨⟨.stmt i, m⟩, ⟨b.following i, m⟩, .callToReturn⟩ : FlowEdge) ∈
      (ofCallGraph cg code).edges := by
  have he := local_mem_edges hm (following_mem_succs hs)
  rwa [bind_call?_of_invoke hs] at he

/-- The edges of a call to a callee with a body. -/
theorem calleeEdges_subset (hk : k ∈ cg.callees ⟨i, m⟩)
    (hkc : (ofCallGraph cg code).cfg? k = some (.ofBody b')) :
    calleeEdges m (.ofBody b) i k (.ofBody b') ⊆ (ofCallGraph cg code).edges := by
  intro e he
  refine mem_edges.mpr ⟨m, _, .stmt i, hm, Body.stmt_mem_points hs, Or.inr ?_⟩
  have hcall : ((Cfg.ofBody b).body.at? (.stmt i)).bind Stmt.call? = some call :=
    bind_call?_of_invoke hs
  unfold callEdges
  rw [hcall]
  refine List.mem_flatMap.mpr ⟨k, hk, ?_⟩
  change (lookup (ofCallGraph cg code).cfgs k) = some (.ofBody b') at hkc
  rw [hkc]
  exact he

theorem call_mem_edges (hk : k ∈ cg.callees ⟨i, m⟩)
    (hkc : (ofCallGraph cg code).cfg? k = some (.ofBody b')) :
    (⟨⟨.stmt i, m⟩, ⟨.entry, k⟩, .call ⟨i, m⟩ k⟩ : FlowEdge) ∈ (ofCallGraph cg code).edges :=
  calleeEdges_subset hm hs hk hkc List.mem_cons_self

theorem ret_mem_edges (hk : k ∈ cg.callees ⟨i, m⟩)
    (hkc : (ofCallGraph cg code).cfg? k = some (.ofBody b')) :
    (⟨⟨.exit, k⟩, ⟨b.following i, m⟩, .ret ⟨i, m⟩ k b'.returnVars⟩ : FlowEdge) ∈
      (ofCallGraph cg code).edges := by
  refine calleeEdges_subset hm hs hk hkc (List.mem_cons_of_mem _ ?_)
  exact List.mem_map.mpr ⟨_, following_mem_succs hs, rfl⟩

end

/-! ## The kinds of edges -/

/-- What the edges over a call graph join. -/
inductive Joins (cg : CallGraph) (code : MethodId → Option Body) : FlowEdge → Prop where
  /-- A point that is no call and a successor of it. -/
  | normal {m : MethodId} {b : Body} {p q : Point} :
      (ofCallGraph cg code).cfg? m = some (.ofBody b) → (b.at? p).bind Stmt.call? = none →
      q ∈ (Cfg.ofBody b).succs p → Joins cg code ⟨⟨p, m⟩, ⟨q, m⟩, .normal⟩
  /-- A call and what follows it. -/
  | callToReturn {m : MethodId} {b : Body} {i : Nat} {result : Option Var} {call : Call} :
      (ofCallGraph cg code).cfg? m = some (.ofBody b) →
      b.stmts[i]? = some (.invoke result call) →
      Joins cg code ⟨⟨.stmt i, m⟩, ⟨b.following i, m⟩, .callToReturn⟩
  /-- A call and the entry of a callee. -/
  | call {m k : MethodId} {b b' : Body} {i : Nat} {result : Option Var} {call : Call} :
      (ofCallGraph cg code).cfg? m = some (.ofBody b) →
      b.stmts[i]? = some (.invoke result call) → k ∈ cg.callees ⟨i, m⟩ →
      (ofCallGraph cg code).cfg? k = some (.ofBody b') →
      Joins cg code ⟨⟨.stmt i, m⟩, ⟨.entry, k⟩, .call ⟨i, m⟩ k⟩
  /-- The exit of a callee and what follows the call. -/
  | ret {m k : MethodId} {b b' : Body} {i : Nat} {result : Option Var} {call : Call} :
      (ofCallGraph cg code).cfg? m = some (.ofBody b) →
      b.stmts[i]? = some (.invoke result call) → k ∈ cg.callees ⟨i, m⟩ →
      (ofCallGraph cg code).cfg? k = some (.ofBody b') →
      Joins cg code ⟨⟨.exit, k⟩, ⟨b.following i, m⟩, .ret ⟨i, m⟩ k b'.returnVars⟩

theorem joins_of_mem_localEdges (hm : (ofCallGraph cg code).cfg? m = some (.ofBody b))
    (he : e ∈ localEdges m (.ofBody b) p) : Joins cg code e := by
  obtain ⟨q, hq, rfl⟩ := List.mem_map.mp he
  have hbody : (Cfg.ofBody b).body.at? p = b.at? p := rfl
  rw [hbody]
  cases hcall : (b.at? p).bind Stmt.call? with
  | none => exact .normal hm hcall hq
  | some call =>
      obtain ⟨s, hs, hcall⟩ := Option.bind_eq_some_iff.mp hcall
      obtain ⟨i, rfl, hi⟩ := Body.at?_eq_some.mp hs
      cases s with
      | invoke result call' =>
          rw [(mem_succs_invoke hi).mp hq]
          exact .callToReturn hm hi
      | _ => exact absurd hcall (by simp [Stmt.call?])

theorem joins_of_mem_callEdges (hm : (ofCallGraph cg code).cfg? m = some (.ofBody b))
    (he : e ∈ callEdges cg (ofCallGraph cg code).cfgs m (.ofBody b) p) : Joins cg code e := by
  unfold callEdges at he
  split at he
  · rename_i i call hcall
    obtain ⟨s, hi, hcall⟩ := Option.bind_eq_some_iff.mp hcall
    change b.stmts[i]? = some s at hi
    cases s with
    | invoke result call' =>
        obtain ⟨k, hk, he⟩ := List.mem_flatMap.mp he
        split at he
        · rename_i c' hc'
          obtain ⟨_, b', _, rfl⟩ := cfg?_eq_some.mp hc'
          rcases List.mem_cons.mp he with rfl | he
          · exact .call hm hi hk hc'
          · obtain ⟨q, hq, rfl⟩ := List.mem_map.mp he
            rw [(mem_succs_invoke hi).mp hq]
            exact .ret hm hi hk hc'
        · exact absurd he (by simp)
    | _ => exact absurd hcall (by simp [Stmt.call?])
  · exact absurd he (by simp)

/-- **There are four kinds of edges**, and these are all edges of each kind. -/
theorem mem_edges_iff_joins : e ∈ (ofCallGraph cg code).edges ↔ Joins cg code e := by
  constructor
  · intro he
    obtain ⟨m, c, p, hc, _, he⟩ := mem_edges.mp he
    obtain ⟨_, b, _, rfl⟩ := cfg?_eq_some.mp hc
    rcases he with he | he
    · exact joins_of_mem_localEdges hc he
    · exact joins_of_mem_callEdges hc he
  · rintro (⟨hm, hp, hq⟩ | ⟨hm, hs⟩ | ⟨hm, hs, hk, hkc⟩ | ⟨hm, hs, hk, hkc⟩)
    · exact normal_mem_edges hm hp hq
    · exact callToReturn_mem_edges hm hs
    · exact call_mem_edges hm hs hk hkc
    · exact ret_mem_edges hm hs hk hkc

/-- **Every edge ends at a point of the graph.** -/
theorem target_mem_nodes (hlinked : ∀ m b, code m = some b → b.Linked)
    (he : e ∈ (ofCallGraph cg code).edges) : e.target ∈ (ofCallGraph cg code).nodes := by
  have hnode : ∀ {m b}, (ofCallGraph cg code).cfg? m = some (.ofBody b) → ∀ q ∈ b.points,
      (⟨q, m⟩ : ProgramPoint) ∈ (ofCallGraph cg code).nodes :=
    fun hm q hq => mem_nodes.mpr ⟨_, hm, hq⟩
  cases mem_edges_iff_joins.mp he with
  | normal hm hp hq =>
      exact hnode hm _ (Cfg.Linked.mem_succs (hlinked _ _ (cfg?_eq_ofBody.mp hm).2) hq).1
  | callToReturn hm hs => exact hnode hm _ Cfg.following_mem_points
  | call hm hs hk hkc => exact hnode hkc _ (Body.entry_mem_points _)
  | ret hm hs hk hkc => exact hnode hm _ Cfg.following_mem_points

end TacFlow.Icfg
