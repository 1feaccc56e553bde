import TacFlow.Calls.Propagation
import TacFlow.Proofs.Calls.Edges
import TacFlow.Proofs.Constant.Equations

/-!
# The equations of constant propagation across methods

The equations of one method carry over to a whole program, with three differences. What flows along
an edge is changed on the way, a call is passed over by the transfer, and the entry of an entry
method may have predecessors, namely recursive calls of it. The entry is visited only if it has; at
any rate the boundary reaches what is behind it.
-/

namespace TacFlow.InterConstants

open Constants (SettledBy transferStmt boundary)

variable {g : Icfg} {n n' : ProgramPoint} {e : FlowEdge} {f f' before after : Env} {x : Var}
  {facts : Facts ProgramPoint Env}

/-! ## Transfers -/

/-- The statement at a program point, unless it is a call. -/
def plainAt (g : Icfg) (n : ProgramPoint) : Option Stmt :=
  (g.at? n).filter (·.call?.isNone)

theorem transfer_eq : transfer g n before after = transferStmt (plainAt g n) before after := by
  unfold transfer plainAt
  cases g.at? n with
  | none => rfl
  | some s => cases s <;> rfl

/-! ## Edges -/

theorem passArguments_congr (h : f.get = f'.get) (params : List Var) (args : List Expr) :
    passArguments params args f = passArguments params args f' := by
  unfold passArguments
  simp only [Expr.eval_congr h]

theorem returnedValue_congr (h : f.get = f'.get) (returned : List Var) :
    returnedValue returned f = returnedValue returned f' := by
  unfold returnedValue
  rw [h]

theorem get_erase (f : Env) (x y : Var) :
    (f.erase x).get y = if y = x then .unassigned else f.get y := by
  by_cases hy : y = x
  · rw [if_pos hy, hy, Env.get_erase_self]
  · rw [if_neg hy, Env.get_erase_ne f hy]

theorem alongEdge_congr (h : f.get = f'.get) (e : FlowEdge) :
    (alongEdge g e f).get = (alongEdge g e f').get := by
  unfold alongEdge
  cases e.kind with
  | normal => exact h
  | callToReturn =>
      dsimp only
      split
      · funext y
        rw [get_erase, get_erase, h]
      · exact h
  | call site callee =>
      dsimp only
      simp only [passArguments_congr h]
  | ret site callee returned =>
      dsimp only
      simp only [returnedValue_congr h]

/-! ## Lawfulness -/

theorem mem_inEdges : e ∈ g.inEdges n ↔ e ∈ g.edges ∧ e.target = n := by
  simp [Icfg.inEdges]

theorem mem_succs : n' ∈ g.succs n ↔ ∃ e ∈ g.edges, e.source = n ∧ e.target = n' := by
  simp only [Icfg.succs, Icfg.outEdges, List.mem_map, List.mem_filter, decide_eq_true_eq, and_assoc]

theorem lawful (g : Icfg) : (problem g).Lawful Env.get where
  same_iff _ _ := Env.same_iff
  join_congr {f f' k k'} hf hk := by
    funext y
    rw [problem, Env.get_joinWith, Env.get_joinWith, hf, hk]
  along_congr {n d f f'} hd hf := by
    obtain ⟨e, _, rfl⟩ := List.mem_map.mp hd
    exact alongEdge_congr hf e
  transfer_congr n {f f' k k'} hf hk := by
    funext y
    change (transfer g n f k).get y = (transfer g n f' k').get y
    rw [transfer_eq, transfer_eq]
    exact Constants.get_transferStmt_congr hf (congrFun hk y)
  transfer_idem n f k := by
    funext y
    change (transfer g n f (transfer g n f k)).get y = (transfer g n f k).get y
    rw [transfer_eq, transfer_eq]
    exact Constants.get_transferStmt_idem _ f k y
  mem_users {n d} hd := by
    obtain ⟨e, he, rfl⟩ := List.mem_map.mp hd
    obtain ⟨hmem, htarget⟩ := mem_inEdges.mp he
    exact mem_succs.mpr ⟨e, hmem, rfl, htarget⟩

theorem mem_visited :
    n ∈ visited g ↔ n ∈ g.nodes ∧ (isBoundary g n = false ∨ g.inEdges n ≠ []) := by
  simp [visited]

/-- Whatever an edge leads to is visited. -/
theorem mem_visited_of_edge (he : e ∈ g.edges) (hn : e.target ∈ g.nodes) : e.target ∈ visited g :=
  mem_visited.mpr ⟨hn, Or.inr (List.ne_nil_of_mem (mem_inEdges.mpr ⟨he, rfl⟩))⟩

/-- Only entries are not visited. -/
theorem mem_visited_of_ne_entry (hn : n ∈ g.nodes) (hne : n.point ≠ .entry) : n ∈ visited g :=
  mem_visited.mpr ⟨hn, Or.inl (by simp [isBoundary, hne])⟩

theorem closed (hg : ∀ e ∈ g.edges, e.target ∈ g.nodes) : (problem g).Closed (visited g) where
  mem_nodes h := (mem_visited.mp h).1
  mem_users {n n'} _ h := by
    obtain ⟨e, he, _, rfl⟩ := mem_succs.mp h
    exact mem_visited_of_edge he (hg e he)

/-! ## What flows into a point -/

theorem seed_of_entry {m : MethodId} {c : Cfg} (hm : m ∈ g.entries) (hc : g.cfg? m = some c) :
    seed g ⟨.entry, m⟩ = boundary c.body := by
  have hboundary : isBoundary g ⟨.entry, m⟩ = true := by simp [isBoundary, hm]
  unfold seed
  rw [hboundary, hc]

theorem merged_eq_foldl : (problem g).merged facts n =
    ((g.inEdges n).map fun e => alongEdge g e ((problem g).farOf facts e.source)).foldl
      Env.joinWith (seed g n) := by
  rw [List.foldl_map]
  exact List.foldl_map

theorem merged_le_iff {m : Var → Value} :
    ((problem g).merged facts n).get ≤ m ↔ (seed g n).get ≤ m ∧
      ∀ e ∈ g.inEdges n, (alongEdge g e ((problem g).farOf facts e.source)).get ≤ m := by
  rw [merged_eq_foldl, Env.foldl_joinWith_le_iff, List.forall_mem_map]

/-! ## Edges over a call graph -/

section

variable {cg : CallGraph} {code : MethodId → Option Body} {m k : MethodId} {b b' : Body} {i : Nat}
  {p : Point} {result : Option Var} {call : Call}

theorem cfg?_of_mem_nodes (hn : (⟨p, m⟩ : ProgramPoint) ∈ (Icfg.ofCallGraph cg code).nodes)
    (hb : code m = some b) :
    (Icfg.ofCallGraph cg code).cfg? m = some (.ofBody b) ∧ p ∈ b.points := by
  obtain ⟨c, hc, hp⟩ := Icfg.mem_nodes.mp hn
  obtain ⟨hm, _⟩ := Icfg.cfg?_eq_some.mp hc
  have hm := Icfg.cfg?_ofBody hm hb
  rw [hm] at hc
  cases hc
  exact ⟨hm, hp⟩

theorem plainAt_eq (hm : (Icfg.ofCallGraph cg code).cfg? m = some (.ofBody b)) :
    plainAt (.ofCallGraph cg code) ⟨p, m⟩ = (b.at? p).filter (·.call?.isNone) := by
  rw [plainAt, Icfg.at?_ofCallGraph hm]

theorem siteAt_eq (hm : (Icfg.ofCallGraph cg code).cfg? m = some (.ofBody b))
    (hs : b.stmts[i]? = some (.invoke result call)) :
    siteAt (.ofCallGraph cg code) ⟨i, m⟩ = some (result, call) := by
  rw [siteAt, Icfg.at?_stmt hm hs]

theorem alongEdge_call (hm : (Icfg.ofCallGraph cg code).cfg? m = some (.ofBody b))
    (hs : b.stmts[i]? = some (.invoke result call))
    (hk : (Icfg.ofCallGraph cg code).cfg? k = some (.ofBody b')) (f : Env) :
    alongEdge (.ofCallGraph cg code) ⟨⟨.stmt i, m⟩, ⟨.entry, k⟩, .call ⟨i, m⟩ k⟩ f =
      passArguments b'.params call.args f := by
  simp only [alongEdge, hk, siteAt_eq hm hs]
  rfl

/-- Past a call everything is known that was known before it, but for the result. -/
theorem get_alongEdge_callToReturn (hm : (Icfg.ofCallGraph cg code).cfg? m = some (.ofBody b))
    (hs : b.stmts[i]? = some (.invoke result call)) (n : ProgramPoint) (f : Env) (y : Var) :
    (alongEdge (.ofCallGraph cg code) ⟨⟨.stmt i, m⟩, n, .callToReturn⟩ f).get y =
      if result = some y then .unassigned else f.get y := by
  simp only [alongEdge, resultAt, Icfg.at?_stmt hm hs]
  cases result with
  | none => exact (if_neg (by simp)).symm
  | some x => simp only [get_erase, Option.some.injEq, eq_comm]

/-- Back from a callee the result is known, from the exit of the callee, and nothing else. -/
theorem get_alongEdge_ret (hm : (Icfg.ofCallGraph cg code).cfg? m = some (.ofBody b))
    (hs : b.stmts[i]? = some (.invoke result call)) (n n' : ProgramPoint) (returned : List Var)
    (f : Env) (y : Var) :
    (alongEdge (.ofCallGraph cg code) ⟨n, n', .ret ⟨i, m⟩ k returned⟩ f).get y =
      if result = some y then returnedValue returned f else .unassigned := by
  simp only [alongEdge, siteAt_eq hm hs]
  cases result with
  | none => exact (if_neg (by simp)).symm
  | some x => simp only [Env.get_set, Env.get_empty, Option.some.injEq, eq_comm]

end

/-! ## Solutions -/

/-- The solver returns a solution, after however many visits. -/
def Returns (g : Icfg) (s : Solution ProgramPoint Env) : Prop :=
  ∃ fuel, solveWithin g fuel = some s

theorem returns_of_solve [Nesting] {s : Solution ProgramPoint Env} (h : solve g = .ok s) : Returns g s := by
  unfold solve at h
  split at h
  · cases hs : solveWithin g visitLimit with
    | none => rw [hs] at h; exact absurd h (by simp [finished])
    | some s' =>
        rw [hs] at h
        cases h
        exact ⟨visitLimit, hs⟩
  · exact absurd h (by simp)

/-- What the environments before and after the points of a program satisfy once they are solved. -/
structure Stable (g : Icfg) (before after : ProgramPoint → Env) : Prop where
  /-- The boundary of an entry method is known behind its entry. -/
  start {m : MethodId} {c : Cfg} : m ∈ g.entries → g.cfg? m = some c →
    (boundary c.body).get ≤ (after ⟨.entry, m⟩).get
  /-- What an edge makes of the environment at its source is taken over at its target. -/
  flows {e : FlowEdge} : e ∈ g.edges → e.target ∈ g.nodes →
    (alongEdge g e (after e.source)).get ≤ (before e.target).get
  /-- The transfer has nothing to add. -/
  settled {n : ProgramPoint} : n ∈ visited g → SettledBy (plainAt g n) (before n) (after n)

section

variable (h : (problem g).Solved Env.get (visited g) facts)

include h

theorem settled_of_solved (hn : n ∈ visited g) :
    SettledBy (plainAt g n) ((problem g).nearOf facts n) ((problem g).farOf facts n) := by
  refine Constants.settledBy_of_transferStmt ?_
  rw [← transfer_eq]
  exact (h.settled hn).far

/-- Whether or not the entry of an entry method is visited, the boundary is known behind it. -/
theorem boundary_le_of_solved {m : MethodId} {c : Cfg} (hm : m ∈ g.entries)
    (hc : g.cfg? m = some c) (hn : (⟨.entry, m⟩ : ProgramPoint) ∈ g.nodes) :
    (boundary c.body).get ≤ ((problem g).farOf facts ⟨.entry, m⟩).get := by
  have hseed := seed_of_entry hm hc
  by_cases hv : (⟨.entry, m⟩ : ProgramPoint) ∈ visited g
  · have hle : (boundary c.body).get ≤ ((problem g).nearOf facts ⟨.entry, m⟩).get := by
      rw [(h.settled hv).near, ← hseed]
      exact (merged_le_iff.mp le_rfl).1
    intro y
    by_cases hy : ((problem g).nearOf facts ⟨.entry, m⟩).get y = .unassigned
    · have hbot : (boundary c.body).get y = .unassigned :=
        Value.eq_of_le_unassigned (hy ▸ hle y)
      rw [hbot]
      exact Value.unassigned_le _
    · -- nothing is assigned at an entry
      have hplain : plainAt g ⟨.entry, m⟩ = none := by
        simp [plainAt, Icfg.at?, hc, Body.at?]
      have hkept := (settled_of_solved h hv).keeps (fun v => by simp [hplain]) hy
      rw [hkept]
      exact hle y
  · have hfar : (problem g).farOf facts ⟨.entry, m⟩ = seed g ⟨.entry, m⟩ :=
      Problem.farOf_reached_of_notMem h.reached hv hn
    rw [hfar, hseed]

theorem stable_of_solved (hentries : ∀ m ∈ g.entries, (⟨.entry, m⟩ : ProgramPoint) ∈ g.nodes) :
    Stable g ((problem g).nearOf facts) ((problem g).farOf facts) where
  start hm hc := boundary_le_of_solved h hm hc (hentries _ hm)
  flows he hn := by
    rw [(h.settled (mem_visited_of_edge he hn)).near]
    exact (merged_le_iff.mp le_rfl).2 _ (mem_inEdges.mpr ⟨he, rfl⟩)
  settled := settled_of_solved h

end

/-- What the solver returns are settled facts. -/
theorem solved_of_returns {cg : CallGraph} {code : MethodId → Option Body}
    (hlinked : ∀ m b, code m = some b → b.Linked) {s : Solution ProgramPoint Env}
    (hs : Returns (.ofCallGraph cg code) s) :
    ∃ facts, (problem (.ofCallGraph cg code)).Solved Env.get (visited (.ofCallGraph cg code)) facts ∧
      facts.forward = s := by
  obtain ⟨fuel, hs⟩ := hs
  obtain ⟨facts, hfacts, rfl⟩ := Option.map_eq_some_iff.mp hs
  have hclosed := closed (g := .ofCallGraph cg code) fun e he => Icfg.target_mem_nodes hlinked he
  exact ⟨facts, Problem.solved_solveWorklist (lawful _) hclosed hfacts, rfl⟩

/-- **What the solver returns satisfies the equations**, at every point of the graph. -/
theorem stable_of_returns {cg : CallGraph} {code : MethodId → Option Body}
    (hlinked : ∀ m b, code m = some b → b.Linked) {s : Solution ProgramPoint Env}
    (hs : Returns (.ofCallGraph cg code) s) :
    ∃ before after, Stable (.ofCallGraph cg code) before after ∧
      ∀ n ∈ (Icfg.ofCallGraph cg code).nodes, s.before.get? n = some (before n) := by
  obtain ⟨facts, hsolved, rfl⟩ := solved_of_returns hlinked hs
  refine ⟨_, _, stable_of_solved hsolved ?_,
    fun n hn => Problem.get?_near (Problem.covers_reached hsolved.reached) hn⟩
  intro m hm
  have hsome : ((Icfg.ofCallGraph cg code).cfg? m).isSome := (List.mem_filter.mp hm).2
  obtain ⟨c, hc⟩ := Option.isSome_iff_exists.mp hsome
  exact Icfg.mem_nodes.mpr ⟨c, hc, c.body.entry_mem_points⟩

end TacFlow.InterConstants
