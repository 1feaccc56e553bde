import TacFlow.Proofs.Constant.FixedPoint
import TacFlow.Proofs.Liveness.Paths

/-!
# What the tests for fixed points decide

Both tests go over the nodes and ask of each transfer whether it would change anything. The test of
constants also merges once more what flows into a node, so it decides the equations, whatever it is
given. The test of live variables does not merge: it takes what is live after a node as it stands,
and decides no more than the equations of the transfers.

So it decides all equations on those solutions only whose sets after the nodes are the unions that
they ought to be, or that a transfer gives away. Nothing else is asked of the sets after the nodes.
Whatever they are, there are sets before the nodes with which the test accepts them.
-/

namespace TacFlow

namespace Liveness

variable {g : Cfg} {b : Body} {n : Point} {s : Solution Point (FinSet Var)}

/-- What is live after a node is what is live before its successors. Where a solution has no set,
nothing is live. -/
def JoinsAt (g : Cfg) (s : Solution Point (FinSet Var)) (n : Point) : Prop :=
  ∀ x, x ∈ (afterAt s n).elements ↔ ∃ q ∈ g.succs n, x ∈ (beforeAt s q).elements

/-- What is live before a node is what the node reads, and what is live after it and not written by
the node. -/
def TransfersAt (g : Cfg) (s : Solution Point (FinSet Var)) (n : Point) : Prop :=
  ∀ x, x ∈ (beforeAt s n).elements ↔
    g.body.ReadsAt x n ∨ x ∈ (afterAt s n).elements ∧ ¬ g.body.WritesAt x n

/-- The transfer of a node has nothing to change exactly if its equation holds. -/
theorem not_changes_iff_transfersAt (s : Solution Point (FinSet Var)) (n : Point) :
    (!(problem g).changes (afterAt s n) (beforeAt s n) n) = true ↔ TransfersAt g s n := by
  rw [(lawful g).not_changes_iff, eq_comm, Set.ext_iff]
  exact forall_congr' fun x => iff_congr Iff.rfl mem_transferStmt_at

/-- **The test accepts exactly the solutions of the equations of the transfers.** -/
theorem isFixed_iff :
    isFixed g s = true ↔ ∀ n ∈ g.nodes, n ≠ .exit → TransfersAt g s n := by
  rw [isFixed, List.all_eq_true]
  constructor
  · intro h n hn hne
    exact (not_changes_iff_transfersAt s n).mp (h n (mem_visited.mpr ⟨hn, hne⟩))
  · intro h n hn
    obtain ⟨hn, hne⟩ := mem_visited.mp hn
    exact (not_changes_iff_transfersAt s n).mpr (h n hn hne)

/-- What the solver returns satisfies all equations, and the test accepts it. -/
theorem isFixed_of_returns (h : Returns (.ofBody b) s) :
    isFixed (.ofBody b) s = true ∧ ∀ n ∈ b.points, n ≠ .exit → JoinsAt (.ofBody b) s n := by
  obtain ⟨fuel, h⟩ := h
  obtain ⟨facts, hf, rfl⟩ := Option.map_eq_some_iff.mp h
  have hsolved := Problem.solved_solveSweeping (lawful (.ofBody b)) (closed b) hf
  constructor
  · refine isFixed_iff.mpr fun n hn hne x => ?_
    exact ((stable_of_solved hsolved).transfers hn hne).trans mem_transferStmt_at
  · intro n hn hne x
    have hnear := Set.ext_iff.mp (hsolved.settled (mem_visited.mpr ⟨hn, hne⟩)).near x
    exact hnear.trans mem_merged

/-- The transfers of the given sets after the nodes are accepted as the sets before them. -/
theorem isFixed_transferred (g : Cfg) (after : Point → FinSet Var) :
    isFixed g ⟨.ofNodes g.nodes fun n => transferStmt (g.body.at? n) (after n),
      .ofNodes g.nodes after, 0⟩ = true := by
  refine isFixed_iff.mpr fun n hn _ x => ?_
  rw [beforeAt, afterAt, Table.get?_ofNodes _ hn, Table.get?_ofNodes _ hn]
  exact mem_transferStmt_at

end Liveness

/-- Which solutions the two tests for fixed points accept on a graph. -/
structure Cfg.TestsFixedPoints (g : Cfg) : Prop where
  /-- The test of constants accepts a solution exactly if the equations hold at every node but the
  entry: what is before the node is the join of what is after its predecessors, and the transfer
  leaves what is after it as it is. -/
  constants (s : Solution Point Env) :
    Constants.isFixed g s = true ↔ ∀ n ∈ g.nodes, n ≠ .entry → Constants.SatisfiesAt g s n
  /-- The test of live variables accepts a solution exactly if what is before each node but the exit
  is what the node reads, and what is after it and not written by the node. -/
  liveness (s : Solution Point (FinSet Var)) :
    Liveness.isFixed g s = true ↔ ∀ n ∈ g.nodes, n ≠ .exit → Liveness.TransfersAt g s n
  /-- It decides all equations of those solutions, and only of those, in which what is after each
  node but the exit is the union of what is before its successors, or a transfer gives away that
  they do not hold. -/
  liveness_joined (s : Solution Point (FinSet Var)) :
    (Liveness.isFixed g s = true ↔
        ∀ n ∈ g.nodes, n ≠ .exit → Liveness.JoinsAt g s n ∧ Liveness.TransfersAt g s n) ↔
      (∀ n ∈ g.nodes, n ≠ .exit → Liveness.JoinsAt g s n) ∨
        ∃ n ∈ g.nodes, n ≠ .exit ∧ ¬ Liveness.TransfersAt g s n
  /-- Any sets after the nodes are accepted together with some sets before them. -/
  liveness_free (after : Point → FinSet Var) : ∃ before : Table Point (FinSet Var),
    before.nodes = g.nodes ∧ Liveness.isFixed g ⟨before, .ofNodes g.nodes after, 0⟩ = true

/-- **The test of constants decides the equations. The test of live variables decides them as far as
what is live after the nodes was merged from what is live before their successors.** -/
theorem Cfg.testsFixedPoints (g : Cfg) : g.TestsFixedPoints where
  constants _ := Constants.isFixed_iff
  liveness _ := Liveness.isFixed_iff
  liveness_joined s := by
    rw [Liveness.isFixed_iff]
    constructor
    · intro h
      by_cases hall : ∀ n ∈ g.nodes, n ≠ .exit → Liveness.TransfersAt g s n
      · exact Or.inl fun n hn hne => (h.mp hall n hn hne).1
      · push Not at hall
        exact Or.inr hall
    · rintro (hjoins | ⟨n, hn, hne, hfails⟩)
      · exact ⟨fun h n hn hne => ⟨hjoins n hn hne, h n hn hne⟩, fun h n hn hne => (h n hn hne).2⟩
      -- neither side holds
      · exact ⟨fun h => absurd (h n hn hne) hfails, fun h => absurd (h n hn hne).2 hfails⟩
  liveness_free after := ⟨_, Table.nodes_ofNodes _ _, Liveness.isFixed_transferred g after⟩

namespace Liveness

set_option maxRecDepth 100000 in
/-- Behind the division `v=a/n` of the example just `v` is live, which the division writes. Where a
solution forgets `v` there, no transfer tells. -/
theorem isFixed_average_forgotten :
    average.Parsed ∧ ∃ s, Returns (.ofBody average) s ∧
      (s.setAfter (.stmt 3) .empty).before.nodes = average.points ∧
      (s.setAfter (.stmt 3) .empty).after.nodes = average.points ∧
      isFixed (.ofBody average) (s.setAfter (.stmt 3) .empty) = true ∧
      ¬ JoinsAt (.ofBody average) (s.setAfter (.stmt 3) .empty) (.stmt 3) := by
  obtain ⟨s, hs, hbefore, hafter, htest, hforgotten, hlive⟩ :
      ∃ s ∈ solveWithin (.ofBody average) 2,
        (s.setAfter (.stmt 3) .empty).before.nodes = average.points ∧
        (s.setAfter (.stmt 3) .empty).after.nodes = average.points ∧
        isFixed (.ofBody average) (s.setAfter (.stmt 3) .empty) = true ∧
        intVar 2 "v" ∉ (afterAt (s.setAfter (.stmt 3) .empty) (.stmt 3)).elements ∧
        intVar 2 "v" ∈ (beforeAt (s.setAfter (.stmt 3) .empty) (.stmt 4)).elements := by
    decide +kernel
  refine ⟨parsed_average, s, ⟨2, hs⟩, hbefore, hafter, htest, fun hjoins => ?_⟩
  exact hforgotten ((hjoins _).mpr ⟨.stmt 4, by decide, hlive⟩)

end Liveness

end TacFlow
