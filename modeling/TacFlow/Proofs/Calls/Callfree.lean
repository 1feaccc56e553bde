import TacFlow.Proofs.Calls.Joining
import TacFlow.Proofs.Constant.Termination
import TacFlow.Proofs.Flow.Relabel

/-!
# Constant propagation where nothing is called

There are two solvers for constant propagation. One works on the graph of a method, the other one on the
graphs of all methods that can be called from an entry method, joined along their calls. They are set up
differently: the one never visits the entry and starts with the boundary behind it; the other one visits
whatever is no entry of an entry method or has an edge that leads to it, and lets the boundary flow in. The
one merges what predecessors have, the other one what comes along edges.

Where the entry method calls nothing, no edge leads to its entry, and every edge hands on what it is
given. Then the two problems are the same, up to the names of the nodes.
-/

namespace TacFlow

/-- An entry method that calls nothing, as the only reachable method of a call graph. -/
structure CallGraph.IsCallfree (cg : CallGraph) (code : MethodId → Option Body) (m : MethodId)
    (b : Body) : Prop where
  entries : cg.entries = [m]
  reachable : cg.reachable = [m]
  body : code m = some b
  linked : b.Linked
  calls : b.calls = []

/-- **The search for methods finds nothing but the entry method** if that has no calls. -/
theorem Hierarchy.isCallfree_callGraph [Nesting] {p : Program} (hp : p.Parsed) {m : MethodId} {b : Body}
    (hb : p.hierarchy.body? m = some b) (hcalls : b.calls = []) :
    (p.hierarchy.callGraph m).IsCallfree p.hierarchy.body? m b := by
  have hcalled : p.hierarchy.calledBy m = [] := by
    simp [Hierarchy.calledBy, Hierarchy.callEdges, hb, hcalls]
  refine ⟨rfl, ?_, hb, hp.linked hb, hcalls⟩
  have hempty : ∀ fuel, Search.run p.hierarchy.calledBy fuel [] [m] = [m] := by
    intro fuel
    cases fuel <;> rfl
  -- the entry method is taken from the queue, and nothing comes into it
  change Search.reach (p.hierarchy.declaredMethods.map (·.id)) p.hierarchy.calledBy [m] = [m]
  simp [Search.reach, Search.enough, Search.run, hcalled, hempty]

theorem Body.call?_of_at? {b : Body} (hcalls : b.calls = []) {p : Point} {s : Stmt}
    (hs : b.at? p = some s) : s.call? = none := by
  obtain ⟨i, rfl, hs⟩ := Body.at?_eq_some.mp hs
  cases s with
  | invoke result call =>
      have hmem : (i, call) ∈ b.calls := Body.mem_calls.mpr ⟨result, hs⟩
      rw [hcalls] at hmem
      exact absurd hmem (by simp)
  | _ => rfl

namespace CallGraph.IsCallfree

variable {cg : CallGraph} {code : MethodId → Option Body} {m : MethodId} {b : Body} {p : Point}

/-- The program points of one method. -/
def within (m : MethodId) (p : Point) : ProgramPoint :=
  ⟨p, m⟩

theorem injective_within : Function.Injective (within m) :=
  fun _ _ h => congrArg ProgramPoint.point h

/-! ## The graph of the program -/

/-- An edge of the method as an edge of the program. -/
def edgeWithin (m : MethodId) (e : Edge) : FlowEdge :=
  ⟨within m e.source, within m e.target, .normal⟩

theorem cfgs (h : cg.IsCallfree code m b) : (Icfg.ofCallGraph cg code).cfgs = [(m, .ofBody b)] := by
  simp [Icfg.cfgs_eq, Icfg.bodies, h.reachable, h.body]

theorem cfg? (h : cg.IsCallfree code m b) :
    (Icfg.ofCallGraph cg code).cfg? m = some (.ofBody b) :=
  Icfg.cfg?_ofBody (by simp [h.reachable]) h.body

theorem nodes (h : cg.IsCallfree code m b) :
    (Icfg.ofCallGraph cg code).nodes = b.points.map (within m) := by
  rw [Icfg.nodes, h.cfgs, List.flatMap_cons, List.flatMap_nil, List.append_nil]
  rfl

/-- No edge is made but those of the body. -/
theorem edges (h : cg.IsCallfree code m b) :
    (Icfg.ofCallGraph cg code).edges = (Cfg.ofBody b).edges.map (edgeWithin m) := by
  have hcall : ∀ p, Icfg.callEdges cg (Icfg.ofCallGraph cg code).cfgs m (.ofBody b) p = [] := by
    intro p
    have hnone : ((Cfg.ofBody b).body.at? p).bind Stmt.call? = none :=
      Option.bind_eq_none_iff.mpr fun s hs => Body.call?_of_at? h.calls hs
    unfold Icfg.callEdges
    rw [hnone]
    cases p <;> rfl
  have hkind : ∀ p, Icfg.passKind b p = .normal := by
    intro p
    rw [← Icfg.kind_eq_passKind]
    cases hs : b.at? p with
    | none => rfl
    | some s => simp [Body.call?_of_at? h.calls hs]
  have hedges : (Icfg.ofCallGraph cg code).edges = (Cfg.ofBody b).nodes.flatMap fun p =>
      Icfg.localEdges m (.ofBody b) p ++
        Icfg.callEdges cg (Icfg.ofCallGraph cg code).cfgs m (.ofBody b) p := by
    change (Icfg.ofCallGraph cg code).cfgs.flatMap (fun x => x.2.nodes.flatMap fun p =>
      Icfg.localEdges x.1 x.2 p ++ Icfg.callEdges cg (Icfg.ofCallGraph cg code).cfgs x.1 x.2 p) = _
    rw [h.cfgs, List.flatMap_cons, List.flatMap_nil, List.append_nil]
  rw [hedges]
  simp only [hcall, List.append_nil]
  rw [Icfg.localEdges_eq, Icfg.edgesWithin]
  simp only [hkind]
  rfl

/-- The edges with a certain source or target are the same ones. -/
theorem filter_edgeWithin {side : Edge → Point} {sideWithin : FlowEdge → ProgramPoint}
    (hside : ∀ e, sideWithin (edgeWithin m e) = within m (side e)) (p : Point) (edges : List Edge) :
    (edges.map (edgeWithin m)).filter (sideWithin · = within m p) =
      (edges.filter (side · = p)).map (edgeWithin m) := by
  rw [List.filter_map]
  congr 1
  refine List.filter_congr fun e _ => ?_
  rw [Function.comp_apply, hside]
  exact decide_eq_decide.mpr injective_within.eq_iff

theorem inEdges (h : cg.IsCallfree code m b) (p : Point) :
    (Icfg.ofCallGraph cg code).inEdges (within m p) =
      ((Cfg.ofBody b).inEdges p).map (edgeWithin m) := by
  rw [Icfg.inEdges, h.edges]
  exact filter_edgeWithin (fun _ => rfl) p _

theorem succs (h : cg.IsCallfree code m b) (p : Point) :
    (Icfg.ofCallGraph cg code).succs (within m p) = ((Cfg.ofBody b).succs p).map (within m) := by
  rw [Icfg.succs, Icfg.outEdges, h.edges, filter_edgeWithin (fun _ => rfl) p, Cfg.succs, List.map_map,
    List.map_map]
  rfl

theorem inEdges_entry (h : cg.IsCallfree code m b) :
    (Icfg.ofCallGraph cg code).inEdges (within m .entry) = [] := by
  rw [h.inEdges, (Cfg.isLaidOut_of_linked h.linked).inEdges_entry, List.map_nil]

theorem isBoundary_iff (h : cg.IsCallfree code m b) (p : Point) :
    InterConstants.isBoundary (.ofCallGraph cg code) (within m p) = true ↔ p = .entry := by
  have hm : m ∈ (Icfg.ofCallGraph cg code).entries := by
    refine List.mem_filter.mpr ⟨?_, by rw [h.cfg?]; rfl⟩
    change m ∈ cg.entries
    simp [h.entries]
  simp only [InterConstants.isBoundary, within, hm, decide_true, Bool.and_true]
  exact decide_eq_true_iff

/-! ## The problem -/

/-- What is visited at first is the same: everything but the entry. -/
theorem visited (h : cg.IsCallfree code m b) :
    InterConstants.visited (.ofCallGraph cg code) =
      (Constants.visited (.ofBody b)).map (within m) := by
  rw [InterConstants.visited, h.nodes, List.filter_map, Constants.visited]
  congr 1
  refine List.filter_congr fun p _ => ?_
  by_cases hp : p = .entry
  · subst hp
    simp [h.inEdges_entry, (h.isBoundary_iff .entry).mpr rfl]
  · have hboundary : InterConstants.isBoundary (.ofCallGraph cg code) (within m p) = false := by
      simpa [hp] using (h.isBoundary_iff p).not
    simp [hp, hboundary]

theorem seed (h : cg.IsCallfree code m b) (p : Point) :
    InterConstants.seed (.ofCallGraph cg code) (within m p) =
      if p = .entry then Constants.boundary b else .empty := by
  by_cases hp : p = .entry
  · subst hp
    have hm : (Icfg.ofCallGraph cg code).cfg? (within m .entry).method = some (.ofBody b) := h.cfg?
    rw [InterConstants.seed, (h.isBoundary_iff .entry).mpr rfl, hm, if_pos rfl]
    rfl
  · have hboundary : InterConstants.isBoundary (.ofCallGraph cg code) (within m p) = false := by
      simpa [hp] using (h.isBoundary_iff p).not
    rw [InterConstants.seed, hboundary, if_neg hp]

theorem transfer (h : cg.IsCallfree code m b) (p : Point) :
    InterConstants.transfer (.ofCallGraph cg code) (within m p) = Constants.transferStmt (b.at? p) := by
  have hplain : InterConstants.plainAt (.ofCallGraph cg code) (within m p) = b.at? p := by
    rw [within, InterConstants.plainAt_eq h.cfg?]
    cases hs : b.at? p with
    | none => rfl
    | some s => simp [Option.filter, Body.call?_of_at? h.calls hs]
  funext before after
  rw [InterConstants.transfer_eq, hplain]

/-- **The problem of the program is that of the method**, where nodes are visited. -/
theorem relabels (h : cg.IsCallfree code m b) :
    (Constants.problem (.ofBody b)).Relabels (within m) (Constants.visited (.ofBody b))
      (InterConstants.problem (.ofCallGraph cg code)) where
  injective := injective_within
  nodes := h.nodes
  users := h.succs
  bottom := rfl
  start := h.seed
  join := rfl
  same := rfl
  transfer := h.transfer
  seed {p} hp := by
    change InterConstants.seed _ _ = .empty
    rw [h.seed, if_neg (Constants.mem_visited.mp hp).2]
  inflow {p} _ := by
    change ((Icfg.ofCallGraph cg code).inEdges (within m p)).map _ =
      (((Cfg.ofBody b).preds p).map fun q => (q, id)).map _
    rw [h.inEdges, Cfg.preds, List.map_map, List.map_map, List.map_map]
    rfl
  closed := Constants.closed h.linked

end CallGraph.IsCallfree

/-! ## The result -/

open CallGraph.IsCallfree (within)
open Problem (relabelState)

/-- The solver for programs on one graph does what the worklist solver does on another one, whose nodes
are the points of a method. -/
structure InterConstants.InLockstep [Nesting] (g : Icfg) (c : Cfg) (m : MethodId) : Prop where
  /-- There are the same nodes in the same order. -/
  nodes : g.nodes = c.nodes.map (within m)
  /-- After every number of visits there are the same facts at them, and the same nodes wait in the
  same order. -/
  turns (k : Nat) : (problem g).turn^[k] ((problem g).initial, visited g) =
    relabelState (within m)
      ((Constants.problem c).turn^[k] ((Constants.problem c).initial, Constants.visited c))
  /-- Within every number of visits, both return the same solution or neither returns. -/
  solveWithin (fuel : Nat) : solveWithin g fuel =
    (Constants.solveWithin c .worklist fuel).map (Solution.relabel (within m))
  /-- One returns if and only if the other one does. -/
  returns : (∃ s, Returns g s) ↔ ∃ s, Constants.Returns c .worklist s
  /-- What they return took the same number of visits and has the same facts at every node. -/
  agrees {s : Solution Point Env} {s' : Solution ProgramPoint Env} :
    Constants.Returns c .worklist s → Returns g s' → s'.visits = s.visits ∧
      ∀ p, s'.before.get? (within m p) = s.before.get? p ∧
        s'.after.get? (within m p) = s.after.get? p
  /-- As they are called, with a limit to their visits, they answer the same or fail the same way. -/
  solve : solve g = (Constants.solve c none).map (Solution.relabel (within m))

namespace CallGraph.IsCallfree

variable {cg : CallGraph} {code : MethodId → Option Body} {m : MethodId} {b : Body}

theorem solveWithin (h : cg.IsCallfree code m b) (fuel : Nat) :
    InterConstants.solveWithin (.ofCallGraph cg code) fuel =
      (Constants.solveWithin (.ofBody b) .worklist fuel).map (Solution.relabel (within m)) := by
  rw [InterConstants.solveWithin, Problem.solveWorklist, h.visited, h.relabels.initial,
    h.relabels.runWorklist fuel fun _ hp => hp, Constants.solveWithin, Problem.solveWorklist,
    Option.map_map, Option.map_map]
  rfl

theorem canTrack [Nesting] (h : cg.IsCallfree code m b) :
    InterConstants.canTrack b = Constants.canTrack b := by
  have hplain : b.stmts.filter (·.call?.isNone) = b.stmts := by
    refine List.filter_eq_self.mpr fun s hs => ?_
    obtain ⟨i, hi⟩ := List.mem_iff_getElem?.mp hs
    have hat : b.at? (.stmt i) = some s := hi
    simp [Body.call?_of_at? h.calls hat]
  rw [InterConstants.canTrack, Constants.canTrack, hplain]

theorem solve [Nesting] (h : cg.IsCallfree code m b) :
    InterConstants.solve (.ofCallGraph cg code) =
      (Constants.solve (.ofBody b) none).map (Solution.relabel (within m)) := by
  have hloose : (Cfg.ofBody b).body.looseJumps = [] := h.linked.looseJumps_eq_nil
  have hbody : (Cfg.ofBody b).body = b := rfl
  rw [InterConstants.solve, h.cfgs, h.solveWithin, Constants.solve, Constants.solveWith, hloose]
  simp only [List.all_cons, List.all_nil, Bool.and_true, hbody, h.canTrack, List.find?_nil]
  cases Constants.canTrack b with
  | false => rfl
  | true => cases Constants.solveWithin (.ofBody b) .worklist visitLimit <;> rfl

theorem inLockstep [Nesting] (h : cg.IsCallfree code m b) :
    InterConstants.InLockstep (.ofCallGraph cg code) (.ofBody b) m where
  nodes := h.nodes
  turns k := by
    rw [h.visited]
    exact h.relabels.turns_initial k
  solveWithin := h.solveWithin
  returns := by
    constructor
    · rintro ⟨s', fuel, hs⟩
      rw [h.solveWithin] at hs
      obtain ⟨s, hs, _⟩ := Option.map_eq_some_iff.mp hs
      exact ⟨s, fuel, hs⟩
    · rintro ⟨s, fuel, hs⟩
      exact ⟨s.relabel (within m), fuel, by rw [h.solveWithin, hs]; rfl⟩
  agrees {s s'} := by
    rintro ⟨fuel, hs⟩ ⟨fuel', hs'⟩
    rw [h.solveWithin] at hs'
    obtain ⟨t, ht, rfl⟩ := Option.map_eq_some_iff.mp hs'
    -- the worklist solver returns one solution, however many visits it may make
    obtain rfl : t = s := by
      obtain ⟨out, hout, rfl⟩ := Option.map_eq_some_iff.mp hs
      obtain ⟨out', hout', rfl⟩ := Option.map_eq_some_iff.mp ht
      rw [Problem.eq_of_runWorklist hout hout']
    exact ⟨rfl, fun p => ⟨Table.get?_relabel injective_within _ p, Table.get?_relabel injective_within _ p⟩⟩
  solve := h.solve

end CallGraph.IsCallfree

/-- **The two solvers for constant propagation do the same where nothing is called**, for every program
and every entry method that contains no call. -/
theorem InterConstants.inLockstep_icfg [Nesting] {p : Program} (hp : p.Parsed) {entry : MethodId} {b : Body}
    (hb : p.hierarchy.body? entry = some b) (hcalls : b.calls = []) :
    InLockstep (p.icfg entry) (.ofBody b) entry :=
  (Hierarchy.isCallfree_callGraph hp hb hcalls).inLockstep

namespace Averaging

/-- A program with the method `int f(int a)` that counts up in a loop and divides behind it. -/
def program : Program where
  hierarchy := {
    declared := [⟨⟨"M", 0⟩, false, false, none, [], [
      ⟨average.method, true, false, false, ["a"], some average⟩]⟩]
    members := [⟨"M", 0⟩] }
  main := none

set_option maxRecDepth 100000 in
theorem parsed_program : program.Parsed :=
  Program.parsed_of_ofText
    "class M\x7bstatic int f(int a)\x7bint n,v;n=0;L:n=n+1;if(n<a)goto L;v=a/n;return v;\x7d\x7d"
    String.toList_ofList (by decide +kernel)

end Averaging

/-- They do the same for a loop with a quotient of variables behind it. -/
theorem InterConstants.inLockstep_icfg_averaging :
    Averaging.program.hierarchy.body? average.method = some average ∧ average.calls = [] ∧
      InLockstep (Averaging.program.icfg average.method) (.ofBody average) average.method := by
  have hb : Averaging.program.hierarchy.body? average.method = some average := rfl
  have hcalls : average.calls = [] := rfl
  exact ⟨hb, hcalls, inLockstep_icfg Averaging.parsed_program hb hcalls⟩

end TacFlow
