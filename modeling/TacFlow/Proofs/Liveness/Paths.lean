import Mathlib.Data.Finset.Card
import Mathlib.Order.CompletePartialOrder
import TacFlow.Proofs.Flow.Ascent
import TacFlow.Proofs.Liveness.Equations

/-!
# Liveness is path liveness

A variable is live after a node exactly if a path leads from there to a node that reads it and no
node before that one writes it. Both directions are inductions, but not over the same thing. That a
listed variable has such a path is kept by every visit, whatever the order. That a path is not
overlooked is an induction along the path, and needs only that the solver has come to an end: the
equations carry the variable back from the node that reads it.

The solver does come to an end: the sets only grow, and they hold nothing but variables that some
statement reads.
-/

namespace TacFlow

/-- A node reads a variable. -/
def Body.ReadsAt (b : Body) (x : Var) (n : Point) : Prop :=
  ∃ s, b.at? n = some s ∧ x ∈ s.uses

/-- A node writes a variable. -/
def Body.WritesAt (b : Body) (x : Var) (n : Point) : Prop :=
  ∃ s, b.at? n = some s ∧ s.defined = some x

/-- A path of one or more edges leads to a node that reads the variable, and no node in between
writes it. -/
def Body.LiveAfter (b : Body) (x : Var) (n : Point) : Prop :=
  ∃ between last, List.IsChain (Cfg.ofBody b).Leads (n :: (between ++ [last])) ∧
    (∀ q ∈ between, ¬ b.WritesAt x q) ∧ b.ReadsAt x last

/-- The variable is read at the node, or it is live after the node, which does not write it. -/
def Body.LiveBefore (b : Body) (x : Var) (n : Point) : Prop :=
  b.ReadsAt x n ∨ b.LiveAfter x n ∧ ¬ b.WritesAt x n

namespace Liveness

variable {b : Body} {n q : Point} {x : Var} {f : FinSet Var} {facts : Facts Point (FinSet Var)}

/-! ## Paths -/

theorem mem_points_of_readsAt (h : b.ReadsAt x n) : n ∈ b.points ∧ n ≠ .exit := by
  obtain ⟨s, hs, _⟩ := h
  obtain ⟨i, rfl, hi⟩ := Body.at?_eq_some.mp hs
  exact ⟨Body.stmt_mem_points hi, by simp⟩

theorem mem_points_of_leads (h : (Cfg.ofBody b).Leads n q) : n ∈ b.points ∧ n ≠ .exit := by
  obtain ⟨e, he, rfl, _⟩ := Cfg.mem_succs.mp h
  exact Cfg.source_mem he

/-- No path begins at the exit. -/
theorem mem_points_of_isChain {between : List Point} {last : Point}
    (h : List.IsChain (Cfg.ofBody b).Leads (n :: (between ++ [last]))) :
    n ∈ b.points ∧ n ≠ .exit := by
  cases between with
  | nil => exact mem_points_of_leads (List.isChain_pair.mp h)
  | cons q between => exact mem_points_of_leads (List.isChain_cons_cons.mp h).1

/-- A path of liveness begins with an edge to a node before which the variable is live. -/
theorem liveAfter_of_leads (hq : (Cfg.ofBody b).Leads n q) (h : b.LiveBefore x q) :
    b.LiveAfter x n := by
  rcases h with hread | ⟨⟨between, last, hpath, hkept, hread⟩, hwrite⟩
  · exact ⟨[], q, List.isChain_pair.mpr hq, by simp, hread⟩
  · refine ⟨q :: between, last, List.isChain_cons_cons.mpr ⟨hq, hpath⟩, ?_, hread⟩
    intro k hk
    rcases List.mem_cons.mp hk with rfl | hk
    · exact hwrite
    · exact hkept k hk

/-- The transfer of a node in terms of what the node reads and writes. -/
theorem mem_transferStmt_at : x ∈ (transferStmt (b.at? n) f).elements ↔
    b.ReadsAt x n ∨ x ∈ f.elements ∧ ¬ b.WritesAt x n := by
  cases hs : b.at? n with
  | none => simp [transferStmt, Body.ReadsAt, Body.WritesAt, hs]
  | some s => simp [mem_transferStmt, Body.ReadsAt, Body.WritesAt, hs]

/-! ## Every listed variable has a path -/

/-- **Whatever a run of the solver lists as live is live.** -/
theorem liveBefore_of_mem_far
    (h : (problem (.ofBody b)).Reached (visited (.ofBody b)) facts) (n : Point) :
    ∀ x ∈ ((problem (.ofBody b)).farOf facts n).elements, b.LiveBefore x n := by
  refine Problem.far_of_reached (fun n hn => (mem_visited.mp hn).1)
    (P := fun n f => ∀ x ∈ f.elements, b.LiveBefore x n) ?_ ?_ ?_ h n
  · intro n x hx
    exact absurd hx (by simp [problem, FinSet.empty])
  · intro n x hx
    exact absurd hx (by simp [problem, FinSet.empty])
  · intro facts n _ hfar x hx
    rcases mem_transferStmt_at.mp hx with hread | ⟨hmerged, hwrite⟩
    · exact Or.inl hread
    · obtain ⟨q, hq, hxq⟩ := mem_merged.mp hmerged
      exact Or.inr ⟨liveAfter_of_leads hq (hfar q x hxq), hwrite⟩

/-! ## No path is overlooked -/

/-- **The equations carry a variable back along its path.** -/
theorem mem_after_of_liveAfter {before after : Point → FinSet Var}
    (hstable : Stable (.ofBody b) before after) (h : b.LiveAfter x n) :
    x ∈ (after n).elements := by
  obtain ⟨between, last, hpath, hkept, hread⟩ := h
  induction between generalizing n with
  | nil =>
      have hlast : (Cfg.ofBody b).Leads n last := List.isChain_pair.mp hpath
      obtain ⟨hn, hne⟩ := mem_points_of_leads hlast
      obtain ⟨hq, hqe⟩ := mem_points_of_readsAt hread
      refine hstable.flows hn hne hlast ?_
      exact (hstable.transfers hq hqe).mpr (mem_transferStmt_at.mpr (Or.inl hread))
  | cons q between ih =>
      obtain ⟨hleads, hpath⟩ := List.isChain_cons_cons.mp hpath
      obtain ⟨hn, hne⟩ := mem_points_of_leads hleads
      have hafter : x ∈ (after q).elements :=
        ih hpath fun k hk => hkept k (List.mem_cons_of_mem q hk)
      -- the path goes on from `q`, so `q` is not the exit
      obtain ⟨hq, hqe⟩ := mem_points_of_isChain hpath
      refine hstable.flows hn hne hleads ((hstable.transfers hq hqe).mpr ?_)
      exact mem_transferStmt_at.mpr (Or.inr ⟨hafter, hkept q (by simp)⟩)

section

variable (h : (problem (.ofBody b)).Solved FinSet.members (visited (.ofBody b)) facts)

include h

theorem mem_near_iff_liveAfter (hn : n ∈ b.points) :
    x ∈ ((problem (.ofBody b)).nearOf facts n).elements ↔ b.LiveAfter x n := by
  refine ⟨fun hx => ?_, mem_after_of_liveAfter (stable_of_solved h)⟩
  by_cases hv : n ∈ visited (.ofBody b)
  · have hmerged := (Set.ext_iff.mp (h.settled hv).near x).mp hx
    obtain ⟨q, hq, hxq⟩ := mem_merged.mp hmerged
    exact liveAfter_of_leads hq (liveBefore_of_mem_far h.reached q x hxq)
  · rw [Problem.nearOf_reached_of_notMem h.reached hv hn] at hx
    exact absurd hx (by simp [problem, FinSet.empty])

theorem mem_far_iff_liveBefore (hn : n ∈ b.points) :
    x ∈ ((problem (.ofBody b)).farOf facts n).elements ↔ b.LiveBefore x n := by
  refine ⟨liveBefore_of_mem_far h.reached n x, fun hlive => ?_⟩
  -- nothing is read at the exit and no path leads on from it
  have hne : n ≠ .exit := by
    rcases hlive with hread | ⟨⟨_, _, hpath, _⟩, _⟩
    · exact (mem_points_of_readsAt hread).2
    · exact (mem_points_of_isChain hpath).2
  refine ((stable_of_solved h).transfers hn hne).mpr (mem_transferStmt_at.mpr ?_)
  exact hlive.imp id fun ⟨hafter, hwrite⟩ => ⟨(mem_near_iff_liveAfter h hn).mpr hafter, hwrite⟩

end

/-! ## The sets grow, and not for ever -/

theorem ascends (b : Body) : (problem (.ofBody b)).Ascends FinSet.members (visited (.ofBody b))
    (fun _ => True) (fun n f => (transferStmt (b.at? n) f).members) where
  mem_nodes h := (mem_visited.mp h).1
  inflow_calm _ _ := trivial
  join_mono {f f' k k'} hf hk := by
    intro x hx
    rcases FinSet.mem_union.mp hx with hx | hx
    · exact FinSet.mem_union.mpr (Or.inl (hf hx))
    · exact FinSet.mem_union.mpr (Or.inr (hk hx))
  along_mono {n e f f'} he h := by
    obtain ⟨q, _, rfl⟩ := List.mem_map.mp he
    exact h
  flow_mono _ _ _ h := by
    intro x hx
    refine mem_transferStmt_at.mpr ((mem_transferStmt_at.mp hx).imp id ?_)
    exact fun ⟨hmem, hwrite⟩ => ⟨h hmem, hwrite⟩
  transfer_eq _ := rfl
  start_le _ _ := by
    intro x hx
    exact absurd hx (by simp [problem, FinSet.empty])

/-- The variables that some statement reads. -/
def readVars (b : Body) : List Var :=
  b.stmts.flatMap Stmt.uses

theorem mem_readVars_of_liveBefore (h : b.LiveBefore x n) : x ∈ readVars b := by
  obtain ⟨q, s, hs, hx⟩ : ∃ q, b.ReadsAt x q := by
    rcases h with hread | ⟨⟨_, last, _, _, hread⟩, _⟩
    · exact ⟨n, hread⟩
    · exact ⟨last, hread⟩
  obtain ⟨i, _, hi⟩ := Body.at?_eq_some.mp hs
  exact List.mem_flatMap.mpr ⟨s, List.mem_of_getElem? hi, hx⟩

/-- The number of read variables that are not in a set. -/
def room (b : Body) (f : FinSet Var) : Nat :=
  ((readVars b).toFinset.filter (· ∉ f.elements)).card

theorem descends (b : Body) : (problem (.ofBody b)).Descends (visited (.ofBody b))
    fun facts => ∑ n ∈ (visited (.ofBody b)).toFinset,
      room b ((problem (.ofBody b)).farOf facts n) := by
  refine (ascends b).descends (lawful _) (fun _ => room b) ?_ ?_
  · intro _ f f' h
    have hmem : ∀ x, x ∈ f.elements ↔ x ∈ f'.elements := Set.ext_iff.mp h
    simp only [room, hmem]
  · intro facts n f hr _ hlt
    obtain ⟨hsub, x, hx, hnew⟩ := Set.ssubset_iff_exists.mp hlt
    have hread := mem_readVars_of_liveBefore (liveBefore_of_mem_far hr n x hx)
    refine Finset.card_lt_card (Finset.ssubset_iff_subset_ne.mpr ⟨?_, ?_⟩)
    · intro y hy
      rw [Finset.mem_filter] at hy ⊢
      exact ⟨hy.1, fun hq => hy.2 (hsub hq)⟩
    · intro heq
      -- the new variable had room before and has none afterwards
      have hroom : x ∈ (readVars b).toFinset.filter (· ∉ f.elements) :=
        Finset.mem_filter.mpr ⟨List.mem_toFinset.mpr hread, hnew⟩
      rw [← heq, Finset.mem_filter] at hroom
      exact hroom.2 hx

/-- **Liveness is path liveness.** The solver comes to an end on every body. What it returns lists a
variable after a node exactly if a path leads to a node that reads it without a node in between that
writes it, and before a node exactly if the node reads it, or does not write it and has it listed
after it. -/
theorem exists_returns_mem_iff_liveAfter (b : Body) :
    (∃ s, Returns (.ofBody b) s) ∧
      ∀ s, Returns (.ofBody b) s → ∀ n ∈ b.points, ∃ before after,
        s.before.get? n = some before ∧ s.after.get? n = some after ∧
          (∀ x, x ∈ after.elements ↔ b.LiveAfter x n) ∧
          ∀ x, x ∈ before.elements ↔
            b.ReadsAt x n ∨ x ∈ after.elements ∧ ¬ b.WritesAt x n := by
  refine ⟨?_, ?_⟩
  · obtain ⟨out, hout⟩ := Problem.exists_solveSweeping (descends b)
    exact ⟨out.backward, _, by rw [solveWithin, hout]; rfl⟩
  · rintro s ⟨fuel, hs⟩ n hn
    obtain ⟨facts, hfacts, rfl⟩ := Option.map_eq_some_iff.mp hs
    have hsolved := Problem.solved_solveSweeping (lawful _) (closed b) hfacts
    have hc := Problem.covers_reached hsolved.reached
    refine ⟨_, _, Problem.get?_far hc hn, Problem.get?_near hc hn,
      fun x => mem_near_iff_liveAfter hsolved hn, fun x => ?_⟩
    rw [mem_far_iff_liveBefore hsolved hn, mem_near_iff_liveAfter hsolved hn]
    exact Iff.rfl

end Liveness

end TacFlow
