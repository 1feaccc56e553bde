import TacFlow.Proofs.Constant.Ascent
import TacFlow.Proofs.Flow.Layers
import TacFlow.Proofs.Flow.Rounds
import TacFlow.Proofs.Program.Parsed
import TacFlow.Proofs.Search

/-!
# Termination of constant propagation

A solver comes to its end exactly if its values stop falling: as long as they only rise, every change
uses up some of the room that is left above the facts.

They do stop if no cycle of the graph can be reached from a hazard. The calm nodes ascend. Behind a
hazard a fact can also fall, but there the graph has no cycles, so that a change moves on to its end
and is gone. With a cycle behind a hazard both solvers may go on for ever, and `spinning` is a body
on which they do.
-/

namespace TacFlow

open Relation (ReflTransGen TransGen)

/-- No cycle can be reached from a hazard. -/
def Body.HazardsEnd (b : Body) : Prop :=
  ∀ h n, b.HazardAt h → ReflTransGen (Cfg.ofBody b).Leads h n → ¬ TransGen (Cfg.ofBody b).Leads n n

namespace Constants

variable {b : Body} {facts facts' : Facts Point Env} {f f' : Env} {n m : Point}

/-! ## Room above the facts -/

/-- How far the values of the tracked variables are from `nac` together. -/
def room (b : Body) (f : Env) : Nat :=
  ∑ x ∈ (trackedVars b).toFinset, (2 - (f.get x).rank)

theorem room_le_of_le (h : f.get ≤ f'.get) : room b f' ≤ room b f := by
  refine Finset.sum_le_sum ?_
  intro x _
  rcases eq_or_lt_of_le (h x) with heq | hlt
  · rw [heq]
  · have := Value.rank_lt_of_lt hlt
    omega

/-- An environment that has risen has less room above it. -/
theorem room_lt_of_le_of_ne (h : f.get ≤ f'.get) (hne : f.get ≠ f'.get)
    (hle : f'.get ≤ knowable b) : room b f' < room b f := by
  obtain ⟨x, hx⟩ := Function.ne_iff.mp hne
  have hlt := Value.rank_lt_of_lt (lt_of_le_of_ne (h x) hx)
  have htop := Value.rank_le_two (f'.get x)
  have hmem : x ∈ trackedVars b := by
    by_contra hmem
    rw [le_knowable.mp hle x hmem] at hlt
    exact absurd hlt (by simp [Value.rank])
  refine Finset.sum_lt_sum ?_ ⟨x, List.mem_toFinset.mpr hmem, by omega⟩
  intro y _
  rcases eq_or_lt_of_le (h y) with heq | hlt
  · rw [heq]
  · have := Value.rank_lt_of_lt hlt
    omega

theorem room_congr (h : f.get = f'.get) : room b f = room b f' := by
  unfold room
  rw [h]

/-- The room above the far facts of some nodes. -/
def roomAt (b : Body) (ns : Finset Point) (facts : Facts Point Env) : Nat :=
  ∑ n ∈ ns, room b ((problem (.ofBody b)).farOf facts n)

theorem roomAt_congr {ns : Finset Point}
    (h : ∀ m ∈ ns, ((problem (.ofBody b)).farOf facts m).get =
      ((problem (.ofBody b)).farOf facts' m).get) : roomAt b ns facts = roomAt b ns facts' :=
  Finset.sum_congr rfl fun m hm => room_congr (h m hm)

theorem roomAt_le_of_le {ns : Finset Point}
    (h : ∀ m ∈ ns, ((problem (.ofBody b)).farOf facts m).get ≤
      ((problem (.ofBody b)).farOf facts' m).get) : roomAt b ns facts' ≤ roomAt b ns facts :=
  Finset.sum_le_sum fun m hm => room_le_of_le (h m hm)

/-- Far facts that have risen have less room above them. -/
theorem roomAt_lt_of_le_of_ne {ns : Finset Point} (hr : Reaches b facts')
    (h : ∀ m ∈ ns, ((problem (.ofBody b)).farOf facts m).get ≤
      ((problem (.ofBody b)).farOf facts' m).get) (hn : n ∈ ns)
    (hne : ((problem (.ofBody b)).farOf facts' n).get ≠
      ((problem (.ofBody b)).farOf facts n).get) : roomAt b ns facts' < roomAt b ns facts := by
  refine Finset.sum_lt_sum ?_ ⟨n, hn, ?_⟩
  · intro m hm
    exact room_le_of_le (h m hm)
  · exact room_lt_of_le_of_ne (h n hn) hne.symm (far_le_knowable hr n)

open scoped Classical in
/-- The nodes that no hazard leads to. -/
noncomputable def calmNodes (b : Body) : Finset Point :=
  {n ∈ (visited (.ofBody b)).toFinset | b.Calm n}

theorem mem_calmNodes : n ∈ calmNodes b ↔ n ∈ visited (.ofBody b) ∧ b.Calm n := by
  simp [calmNodes]

open scoped Classical in
/-- The number of nodes that a node leads to. -/
noncomputable def depthBelow (b : Body) (n : Point) : Nat :=
  (b.points.toFinset.filter fun q => TransGen (Cfg.ofBody b).Leads n q).card

/-! ## The layers -/

theorem not_calm_of_succ (hn : ¬ b.Calm n) (hs : m ∈ (Cfg.ofBody b).succs n) : ¬ b.Calm m :=
  fun hm => hn (calm_of_succ hm hs)

/-- A node without a cycle leads to more nodes than its successors do. -/
theorem depthBelow_lt (hl : b.Linked) (hs : m ∈ (Cfg.ofBody b).succs n)
    (hm : ¬ TransGen (Cfg.ofBody b).Leads m m) : depthBelow b m < depthBelow b n := by
  classical
  refine Finset.card_lt_card (Finset.ssubset_iff_subset_ne.mpr ⟨?_, ?_⟩)
  · intro q hq
    simp only [Finset.mem_filter] at hq ⊢
    exact ⟨hq.1, hq.2.head hs⟩
  · intro heq
    have hmem : m ∈ b.points.toFinset.filter fun q => TransGen (Cfg.ofBody b).Leads n q := by
      rw [Finset.mem_filter, List.mem_toFinset]
      exact ⟨(Cfg.Linked.mem_succs hl hs).1, .single hs⟩
    rw [← heq, Finset.mem_filter] at hmem
    exact hm hmem.2

/-- **Constant propagation falls into two layers**: the calm nodes, and the nodes behind hazards. -/
theorem layers (hb : b.WellFormed) (hend : b.HazardsEnd) :
    (problem (.ofBody b)).Layers (visited (.ofBody b)) b.Calm (roomAt b (calmNodes b))
      (depthBelow b) where
  uses {facts n} hr hn hcalm hflag := by
    have hflat : ∀ s ∈ b.stmts, s.isFlat = true := fun s hs => hb.flat hs
    refine roomAt_lt_of_le_of_ne (.visit hr hn) ?_ ?_ ((lawful _).farOf_visit_of_changed
      (Problem.covers_reached hr) (mem_nodes_of_mem_visited hn) hflag)
    · intro m hm
      exact (ascends hflat).farOf_le_farOf_visit hr (ascending_of_reaches hflat hr) hn
        (mem_calmNodes.mp hm).2
    · exact mem_calmNodes.mpr ⟨hn, hcalm⟩
  keeps {facts n} hr hn hstill := by
    refine (roomAt_congr ?_).le
    intro m hm
    rcases hstill with hcalm | hflag
    · have hmn : m ≠ n := fun hq => hcalm (hq ▸ (mem_calmNodes.mp hm).2)
      rw [Problem.farOf_visit_ne hmn]
    · exact (lawful _).farOf_visit_of_unchanged (Problem.covers_reached hr)
        (mem_nodes_of_mem_visited hn) hflag m
  falls {n m} hn hcalm hs := by
    refine ⟨not_calm_of_succ hcalm hs, depthBelow_lt hb.linked hs ?_⟩
    -- a node that is not calm lies behind a hazard
    obtain ⟨h, hh, hreach⟩ : ∃ h, b.HazardAt h ∧ ReflTransGen (Cfg.ofBody b).Leads h n := by
      simpa [Body.Calm] using hcalm
    exact hend h m hh (hreach.tail hs)

theorem exists_descends (hb : b.WellFormed) (hend : b.HazardsEnd) :
    ∃ μ, (problem (.ofBody b)).Descends (visited (.ofBody b)) μ :=
  ⟨_, Problem.descends_layered (lawful _) (closed hb.linked) (layers hb hend)⟩

theorem exists_returns_of_descends (hl : b.Linked) {μ : Facts Point Env → Nat}
    (hμ : (problem (.ofBody b)).Descends (visited (.ofBody b)) μ) (solver : SolverKind) :
    ∃ s, Returns (.ofBody b) solver s := by
  cases solver with
  | worklist =>
      obtain ⟨out, hout⟩ := Problem.exists_solveWorklist (lawful _) (closed hl) hμ
      exact ⟨out.forward, _, by rw [solveWithin, hout]; rfl⟩
  | iterative =>
      obtain ⟨out, hout⟩ := Problem.exists_solveSweeping hμ
      exact ⟨out.forward, _, by rw [solveWithin, hout]; rfl⟩

theorem exists_returns_of_hazardsEnd (hb : b.WellFormed) (hend : b.HazardsEnd)
    (solver : SolverKind) : ∃ s, Returns (.ofBody b) solver s := by
  obtain ⟨μ, hμ⟩ := exists_descends hb hend
  exact exists_returns_of_descends hb.linked hμ solver

/-! ## Round by round -/

/-- The facts of a solver after a number of visits or sweeps. When it is done, it keeps them. -/
def rounds (g : Cfg) (solver : SolverKind) (k : Nat) : Facts Point Env :=
  match solver with
  | .worklist => ((problem g).turn^[k] ((problem g).initial, visited g)).1
  | .iterative => (((problem g).sweepTurn (visited g))^[k] ((problem g).initial, true)).1

/-- From some round on, no value falls any more. -/
def StopsFalling (g : Cfg) (solver : SolverKind) : Prop :=
  ∃ k, ∀ j, k ≤ j → ∀ n, ((problem g).farOf (rounds g solver j) n).get ≤
    ((problem g).farOf (rounds g solver (j + 1)) n).get

/-- A solver that has returned keeps its facts. -/
theorem stopsFalling_of_returns {g : Cfg} {solver : SolverKind} {s : Solution Point Env}
    (h : Returns g solver s) : StopsFalling g solver := by
  obtain ⟨k, h⟩ := h
  refine ⟨k, fun j hj n => ?_⟩
  have hstill : rounds g solver (j + 1) = rounds g solver j := by
    cases solver with
    | worklist =>
        obtain ⟨out, hout, _⟩ := Option.map_eq_some_iff.mp h
        have hdone := congrArg Prod.snd (Problem.runWorklist_eq_some_iff.mp hout)
        simp only [rounds]
        rw [iterate_eq_of_done Problem.turn_of_empty hdone (Nat.le_succ_of_le hj),
          iterate_eq_of_done Problem.turn_of_empty hdone hj]
    | iterative =>
        obtain ⟨out, hout, _⟩ := Option.map_eq_some_iff.mp h
        have hdone := congrArg Prod.snd (Problem.runSweeps_eq_some_iff.mp hout)
        simp only [rounds]
        rw [iterate_eq_of_done Problem.sweepTurn_of_still hdone (Nat.le_succ_of_le hj),
          iterate_eq_of_done Problem.sweepTurn_of_still hdone hj]
  rw [hstill]

theorem nodup_visited (b : Body) : (visited (.ofBody b)).Nodup :=
  b.nodup_points.filter _

/-- The worklist solver is done some day if no value falls any more. -/
theorem exists_returns_worklist (hb : b.WellFormed) (h : StopsFalling (.ofBody b) .worklist) :
    ∃ s, Returns (.ofBody b) .worklist s := by
  obtain ⟨k, hk⟩ := h
  let scope := visited (.ofBody b)
  obtain ⟨i, hi⟩ : ∃ i,
      ((problem (.ofBody b)).turn^[i] ((problem (.ofBody b)).initial, scope)).2 = [] := by
    refine exists_done_of_weight (fun s : Facts Point Env × List Point => s.2 = [])
      ((problem (.ofBody b)).weight scope (roomAt b scope.toFinset)) (i := k) ?_
    intro j hj hbusy
    have hle := hk j hj
    obtain ⟨hqueue, hr⟩ := Problem.reached_turns (closed hb.linked) j
    simp only [rounds] at hle
    rw [Function.iterate_succ_apply'] at hle ⊢
    generalize (problem (.ofBody b)).turn^[j] _ = s at *
    obtain ⟨facts, _ | ⟨n, queue⟩⟩ := s
    · exact absurd rfl hbusy
    have hn : n ∈ scope := hqueue n (by simp)
    have hc := Problem.covers_reached hr
    rw [Problem.turn_cons] at hle ⊢
    rw [Problem.worklistStep_fst] at hle
    refine Problem.weight_worklistStep_lt hn ?_ ?_
    · intro hflag
      exact roomAt_lt_of_le_of_ne (.visit hr hn) (fun m _ => hle m) (List.mem_toFinset.mpr hn)
        ((lawful _).farOf_visit_of_changed hc (mem_nodes_of_mem_visited hn) hflag)
    · intro hflag
      refine (roomAt_congr fun m _ => ?_).le
      exact (lawful _).farOf_visit_of_unchanged hc (mem_nodes_of_mem_visited hn) hflag m
  have hrun := Problem.runWorklist_eq_some_iff.mpr (Prod.ext rfl hi)
  exact ⟨_, i, Option.map_eq_some_iff.mpr ⟨_, hrun, rfl⟩⟩

/-- The sweeping solver is done some day if no value falls any more. -/
theorem exists_returns_iterative (h : StopsFalling (.ofBody b) .iterative) :
    ∃ s, Returns (.ofBody b) .iterative s := by
  obtain ⟨k, hk⟩ := h
  let scope := visited (.ofBody b)
  obtain ⟨i, hi⟩ : ∃ i, (((problem (.ofBody b)).sweepTurn scope)^[i]
      ((problem (.ofBody b)).initial, true)).2 = false := by
    -- a sweep that changes something takes from the room, and the last one lowers the flag
    refine exists_done_of_weight (fun s : Facts Point Env × Bool => s.2 = false)
      (fun s => roomAt b scope.toFinset s.1 + s.2.toNat) (i := k) ?_
    intro j hj hbusy
    have hle := hk j hj
    have hr : Reaches b (((problem (.ofBody b)).sweepTurn scope)^[j]
        ((problem (.ofBody b)).initial, true)).1 := Problem.reached_sweepTurns j
    simp only [rounds] at hle
    rw [Function.iterate_succ_apply'] at hle ⊢
    generalize ((problem (.ofBody b)).sweepTurn scope)^[j] _ = s at *
    obtain ⟨facts, _ | _⟩ := s
    · exact absurd rfl hbusy
    rw [Problem.sweepTurn_busy] at hle ⊢
    have hr' := Problem.reached_sweep (fun n hn => hn) hr
    cases hflag : ((problem (.ofBody b)).sweep scope facts).2 with
    | true =>
        obtain ⟨n, hn, hne⟩ := Problem.exists_farOf_sweep_ne (lawful _) (nodup_visited b)
          (fun n hn => mem_nodes_of_mem_visited hn) (Problem.covers_reached hr) hflag
        have hlt := roomAt_lt_of_le_of_ne hr' (fun m _ => hle m) (List.mem_toFinset.mpr hn) hne
        simpa using hlt
    | false =>
        have hroom : roomAt b scope.toFinset ((problem (.ofBody b)).sweep scope facts).1 ≤
            roomAt b scope.toFinset facts := roomAt_le_of_le fun m _ => hle m
        simpa [Nat.lt_succ_iff] using hroom
  have hrun := Problem.runSweeps_eq_some_iff.mpr (Prod.ext rfl hi)
  exact ⟨_, i, Option.map_eq_some_iff.mpr ⟨_, hrun, rfl⟩⟩

/-- **Constant propagation comes to an end exactly if its values stop falling**, whichever solver is
used. They do if no cycle can be reached from a hazard. -/
theorem exists_returns_iff_stopsFalling [Nesting] (hparsed : b.Parsed) (solver : SolverKind) :
    ((∃ s, Returns (.ofBody b) solver s) ↔ StopsFalling (.ofBody b) solver) ∧
      (b.HazardsEnd → StopsFalling (.ofBody b) solver) := by
  have hb := hparsed.wellFormed
  refine ⟨⟨?_, ?_⟩, ?_⟩
  · rintro ⟨s, hs⟩
    exact stopsFalling_of_returns hs
  · intro h
    cases solver with
    | worklist => exact exists_returns_worklist hb h
    | iterative => exact exists_returns_iterative h
  · intro hend
    obtain ⟨s, hs⟩ := exists_returns_of_hazardsEnd hb hend solver
    exact stopsFalling_of_returns hs

/-! ## Testing for hazards before cycles -/

end Constants

/-- Whether no cycle can be reached from a hazard, found out by searches. -/
def Body.testHazards (b : Body) : Bool :=
  let reach := Search.reach b.points (Cfg.ofBody b).succs
  b.points.all fun h =>
    !(b.at? h).any b.isHazard || (reach [h]).all fun n => n ∉ reach ((Cfg.ofBody b).succs n)

/-- A search finds everything that its start leads to. -/
theorem mem_reach_of_reflTransGen {b : Body} (hl : b.Linked) {start : List Point} {p q : Point}
    (hstart : ∀ x ∈ start, x ∈ b.points) (hp : p ∈ start)
    (h : ReflTransGen (Cfg.ofBody b).Leads p q) :
    q ∈ Search.reach b.points (Cfg.ofBody b).succs start := by
  have hscope : ∀ x ∈ b.points, ∀ y ∈ (Cfg.ofBody b).succs x, y ∈ b.points :=
    fun x _ y hy => (Cfg.Linked.mem_succs hl hy).1
  exact (Search.finds_reach (Search.bounds_of_closed hscope hstart)).mem_iff.mpr ⟨p, hp, h⟩

theorem Body.hazardsEnd_of_test {b : Body} (hl : b.Linked) (h : b.testHazards = true) :
    b.HazardsEnd := by
  rintro p n ⟨s, hs, hhazard⟩ hreach hcycle
  have hp : p ∈ b.points := by
    obtain ⟨i, rfl, hi⟩ := Body.at?_eq_some.mp hs
    exact Body.stmt_mem_points hi
  have htest := List.all_eq_true.mp h p hp
  simp only [hs, Option.any_some, hhazard, Bool.not_true, Bool.false_or, List.all_eq_true,
    decide_eq_true_eq] at htest
  have hfound := mem_reach_of_reflTransGen hl (by simpa using hp) (List.mem_singleton.mpr rfl) hreach
  refine htest n hfound ?_
  -- a cycle leads from a successor of the node back to the node
  obtain ⟨m, hm, hback⟩ := TransGen.head'_iff.mp hcycle
  exact mem_reach_of_reflTransGen hl (fun x hx => (Cfg.Linked.mem_succs hl hx).1) hm hback

/-- A method `int f(int a)` that counts up in a loop and divides behind it. -/
def average : Body where
  method := ⟨⟨"M", 0⟩, ⟨.primitive .int, "f", [.primitive .int]⟩⟩
  params := [intVar 0 "a"]
  vars := [intVar 0 "a", intVar 1 "n", intVar 2 "v"]
  stmts := [
    .assign (.var (intVar 1 "n")) (.lit 0),
    .assign (.var (intVar 1 "n")) (.binary .add (.var (intVar 1 "n")) (.lit 1)),
    .branch (.binary .lt (.var (intVar 1 "n")) (.var (intVar 0 "a"))) (some 1),
    .assign (.var (intVar 2 "v")) (.binary .div (.var (intVar 0 "a")) (.var (intVar 1 "n"))),
    .ret (some (.var (intVar 2 "v")))]
  lines := [1, 1, 1, 1, 1]

set_option maxRecDepth 100000 in
theorem parsed_average : average.Parsed :=
  Body.parsed_of_mem
    "class M\x7bstatic int f(int a)\x7bint n,v;n=0;L:n=n+1;if(n<a)goto L;v=a/n;return v;\x7d\x7d"
    String.toList_ofList (by decide +kernel)

namespace Constants

theorem exists_returns_average :
    average.Parsed ∧ average.HazardAt (.stmt 3) ∧ average.HazardsEnd ∧
      ∀ solver, ∃ s, Returns (.ofBody average) solver s := by
  have hend : average.HazardsEnd :=
    Body.hazardsEnd_of_test parsed_average.wellFormed.linked (by decide +kernel)
  refine ⟨parsed_average, ⟨_, rfl, by decide⟩, hend, fun solver => ?_⟩
  obtain ⟨hiff, hstops⟩ := exists_returns_iff_stopsFalling parsed_average solver
  exact hiff.mpr (hstops hend)

/-! ## A body on which both solvers go on for ever -/

end Constants

/-- A method `void f(int a, int c)` with a ring of jumps, from 10 over 8, 7, 6 and 5 back to 10. The
quotient at 9 is not a constant as long as nothing is known of `b`, and nothing is known of it once
`b` is zero. By then its first value has entered the ring, and there it circles: at every node it
overwrites the 5 that comes from 2, and the 5 overwrites it again when it has passed. -/
def spinning : Body where
  method := ⟨⟨"M", 0⟩, ⟨.primitive .void, "f", [.primitive .int, .primitive .int]⟩⟩
  params := [intVar 0 "a", intVar 1 "c"]
  vars := [intVar 0 "a", intVar 1 "c", intVar 2 "v", intVar 3 "b"]
  stmts := [
    .branch (.binary .eq (.var (intVar 1 "c")) (.lit 0)) (some 9),
    .branch (.binary .eq (.var (intVar 1 "c")) (.lit 1)) (some 11),
    .assign (.var (intVar 2 "v")) (.lit 5),
    .goto (some 10),
    .goto (some 9),
    .goto (some 10),
    .goto (some 5),
    .goto (some 6),
    .goto (some 7),
    .assign (.var (intVar 2 "v")) (.binary .div (.var (intVar 0 "a")) (.var (intVar 3 "b"))),
    .goto (some 8),
    .assign (.var (intVar 3 "b")) (.lit 0),
    .goto (some 4)]
  lines := List.replicate 13 1

deriving instance DecidableEq for Env, Table

namespace Constants

set_option maxRecDepth 100000 in
/-- After 36 visits the worklist solver comes back to the same facts and the same queue every ten
visits, and after six sweeps the sweeping solver comes back to the same facts every four sweeps. -/
theorem not_exists_returns_spinning :
    spinning.Parsed ∧ ∀ solver, ¬ ∃ s, Returns (.ofBody spinning) solver s := by
  refine ⟨?_, ?_⟩
  · exact Body.parsed_of_mem
      ("class M\x7bstatic void f(int a,int c)\x7bint v,b;if(c==0)goto P;if(c==1)goto Q;v=5;goto L1;" ++
        "B:goto P;L5:goto L1;L4:goto L5;L3:goto L4;L2:goto L3;P:v=a/b;L1:goto L2;Q:b=0;goto B;\x7d\x7d")
      (toList_append_of_eq String.toList_ofList String.toList_ofList) (by decide +kernel)
  · rintro solver ⟨s, fuel, hs⟩
    cases solver with
    | worklist =>
        obtain ⟨out, hout, _⟩ := Option.map_eq_some_iff.mp hs
        rw [Problem.solveWorklist, Problem.runWorklist_eq_none_of_return (i := 36) (k := 10)
          (by decide) (by decide +kernel) (by decide +kernel)] at hout
        exact absurd hout (by simp)
    | iterative =>
        obtain ⟨out, hout, _⟩ := Option.map_eq_some_iff.mp hs
        rw [Problem.solveSweeping, Problem.runSweeps_eq_none_of_return (i := 6) (k := 4)
          (by decide) (by decide +kernel) (by decide +kernel)] at hout
        exact absurd hout (by simp)

end Constants

end TacFlow
