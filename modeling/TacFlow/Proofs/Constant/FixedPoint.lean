import TacFlow.Proofs.Constant.Termination

/-!
# What a solver returns is a fixed point

A solver stops when nothing is left to visit, and that alone makes its answer a solution of the
equations that it iterates: what is before a node is the join of what is after its predecessors, and
the transfer has nothing to add. No order on the values is needed for this, so it holds for bodies
in which quotients make values fall as well, whenever a solver comes to an end on them.

The test `isFixed` works the equations out once more. It accepts exactly the solutions of them, and
so it never rejects such an answer.
-/

namespace TacFlow.Constants

variable {g : Cfg} {b : Body} {n : Point} {facts : Facts Point Env}

/-- The join of the values that a variable has after the predecessors of a node; it is `unassigned`
if there are none. -/
def joinedValue (g : Cfg) (after : Point → Env) (n : Point) (x : Var) : Value :=
  ((g.preds n).map fun q => (after q).get x).foldl Value.join .unassigned

theorem get_joined (g : Cfg) (after : Point → Env) (n : Point) (x : Var) :
    (joined g after n).get x = joinedValue g after n x := by
  have hjoined : joined g after n = ((g.preds n).map after).foldl Env.joinWith .empty :=
    List.foldl_map.symm
  rw [hjoined, Env.get_foldl_joinWith, List.map_map]
  rfl

/-- A solution satisfies the equations at a node. Where it has no environment, nothing is known. -/
structure SatisfiesAt (g : Cfg) (s : Solution Point Env) (n : Point) : Prop where
  /-- Before the node is the join of what is after its predecessors. -/
  joins (x : Var) : (beforeAt s n).get x = joinedValue g (afterAt s) n x
  /-- The transfer leaves what is after it as it is. -/
  transfers : ((problem g).transfer n (beforeAt s n) (afterAt s n)).get = (afterAt s n).get

/-- Merging once more gives what is before a node exactly if that is the join. -/
theorem same_merged_iff (s : Solution Point Env) (n : Point) :
    (problem g).same ((problem g).merged ⟨s.before, s.after, 0⟩ n) (beforeAt s n) = true ↔
      ∀ x, (beforeAt s n).get x = joinedValue g (afterAt s) n x := by
  refine Env.same_iff.trans (funext_iff.trans (forall_congr' fun x => ?_))
  rw [merged_eq_joined, get_joined, eq_comm]
  rfl

/-- **The test accepts exactly the solutions of the equations**, whatever it is given. -/
theorem isFixed_iff {s : Solution Point Env} :
    isFixed g s = true ↔ ∀ n ∈ g.nodes, n ≠ .entry → SatisfiesAt g s n := by
  rw [isFixed, List.all_eq_true]
  constructor
  · intro h n hn hne
    obtain ⟨hmerged, htransfers⟩ := Bool.and_eq_true_iff.mp (h n (mem_visited.mpr ⟨hn, hne⟩))
    exact ⟨(same_merged_iff s n).mp hmerged, ((lawful g).not_changes_iff _ _ n).mp htransfers⟩
  · intro h n hn
    obtain ⟨hn, hne⟩ := mem_visited.mp hn
    have hat := h n hn hne
    exact Bool.and_eq_true_iff.mpr
      ⟨(same_merged_iff s n).mpr hat.joins, ((lawful g).not_changes_iff _ _ n).mpr hat.transfers⟩

/-- A solution in which no visit to a node would change anything. -/
structure IsFixedPoint (g : Cfg) (s : Solution Point Env) : Prop where
  /-- Behind the entry is the boundary. -/
  entry : s.after.get? .entry = some (boundary g.body)
  /-- Every other node has its two environments. Before it is the join of what is after its
  predecessors. The transfer leaves what is after it as it is, and reports no change. -/
  node {n : Point} : n ∈ g.nodes → n ≠ .entry → ∃ before after,
    s.before.get? n = some before ∧ s.after.get? n = some after ∧
      (∀ x, before.get x = joinedValue g (afterAt s) n x) ∧
      ((problem g).transfer n before after).get = after.get ∧
      (problem g).changes before after n = false

section

variable (h : (problem g).Solved Env.get (visited g) facts)

include h

/-- A settled node has nothing to report. -/
theorem changes_eq_false_of_solved (hn : n ∈ visited g) :
    (problem g).changes ((problem g).nearOf facts n) ((problem g).farOf facts n) n = false := by
  rw [← Bool.not_eq_true']
  exact ((lawful g).not_changes_iff _ _ n).mpr (h.settled hn).far

theorem satisfiesAt_of_solved (hn : n ∈ visited g) : SatisfiesAt g facts.forward n where
  joins x := by
    have hnear := congrFun (h.settled hn).near x
    rw [merged_eq_joined, get_joined] at hnear
    exact hnear
  transfers := (h.settled hn).far

theorem isFixedPoint_of_solved : IsFixedPoint g facts.forward where
  entry := by
    have hn : Point.entry ∈ (problem g).nodes := g.body.entry_mem_points
    have hfar := Problem.farOf_reached_of_notMem h.reached (by simp [mem_visited]) hn
    have hget := Problem.get?_far (Problem.covers_reached h.reached) hn
    rw [hfar] at hget
    exact hget
  node {n} hn hne := by
    have hc := Problem.covers_reached h.reached
    have hv : n ∈ visited g := mem_visited.mpr ⟨hn, hne⟩
    have hat := satisfiesAt_of_solved h hv
    exact ⟨_, _, Problem.get?_near hc hn, Problem.get?_far hc hn, hat.joins, hat.transfers,
      changes_eq_false_of_solved h hv⟩

/-- The test accepts settled facts. -/
theorem isFixed_of_solved : isFixed g facts.forward = true :=
  isFixed_iff.mpr fun _ hn hne => satisfiesAt_of_solved h (mem_visited.mpr ⟨hn, hne⟩)

end

/-- **What a solver returns is a fixed point**, with either solver and whatever the body divides by,
and the test for it says so. -/
theorem isFixedPoint_of_returns [Nesting] (hparsed : b.Parsed) {solver : SolverKind} {s : Solution Point Env}
    (hs : Returns (.ofBody b) solver s) :
    IsFixedPoint (.ofBody b) s ∧ isFixed (.ofBody b) s = true := by
  obtain ⟨facts, hsolved, rfl⟩ := solved_of_returns hparsed.wellFormed.linked hs
  exact ⟨isFixedPoint_of_solved hsolved, isFixed_of_solved hsolved⟩

set_option maxRecDepth 100000 in
/-- The example divides by a variable, in a loop. -/
theorem isFixedPoint_of_returns_average :
    ∃ s s', Returns (.ofBody average) .worklist s ∧ IsFixedPoint (.ofBody average) s ∧
      Returns (.ofBody average) .iterative s' ∧ IsFixedPoint (.ofBody average) s' ∧
      isFixed (.ofBody average) s = true ∧ isFixed (.ofBody average) s' = true := by
  obtain ⟨s, hs⟩ : ∃ s, solveWithin (.ofBody average) .worklist 24 = some s :=
    Option.isSome_iff_exists.mp (by decide +kernel)
  obtain ⟨s', hs'⟩ : ∃ s, solveWithin (.ofBody average) .iterative 6 = some s :=
    Option.isSome_iff_exists.mp (by decide +kernel)
  obtain ⟨hfix, htest⟩ := isFixedPoint_of_returns parsed_average ⟨24, hs⟩
  obtain ⟨hfix', htest'⟩ := isFixedPoint_of_returns parsed_average ⟨6, hs'⟩
  exact ⟨s, s', ⟨24, hs⟩, hfix, ⟨6, hs'⟩, hfix', htest, htest'⟩

end TacFlow.Constants
