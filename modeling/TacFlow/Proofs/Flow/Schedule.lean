import TacFlow.Proofs.Flow.Visit

/-!
# Schedules

The two solvers differ only in the order of their visits. `Picks` is a worklist solver without an
order: it takes any node of its queue. The worklist solver makes one of its runs, the one that
always takes the front.

Whatever the order, a solver that comes to an end has settled every node. For a worklist that is
the invariant `Underway`: a node that is not settled waits in the queue. For a sweep it is the last
sweep that shows it, since nothing that it settled was unsettled again.
-/

namespace TacFlow.Problem

variable {N F V : Type} [DecidableEq N] {p : Problem N F} {view : F → V} {scope : List N}
  {facts out : Facts N F} {n m : N}

/-- One step of a worklist solver that takes any node of its queue. -/
inductive Picks (p : Problem N F) : Facts N F × List N → Facts N F × List N → Prop where
  | pick (facts : Facts N F) (front : List N) (n : N) (back : List N) :
      Picks p (facts, front ++ n :: back) (p.worklistStep facts n (front ++ back))

/-- A number of such steps. -/
inductive Runs (p : Problem N F) : Nat → Facts N F × List N → Facts N F × List N → Prop where
  | refl (s : Facts N F × List N) : Runs p 0 s s
  | tail {k : Nat} {s s' s'' : Facts N F × List N} :
      Runs p k s s' → p.Picks s' s'' → Runs p (k + 1) s s''

/-- The facts that visits to some nodes lead to from the initial ones. -/
inductive Reached (p : Problem N F) (scope : List N) : Facts N F → Prop where
  | initial : Reached p scope p.initial
  | visit {facts : Facts N F} {n : N} :
      Reached p scope facts → n ∈ scope → Reached p scope (p.visit facts n).1

/-- Nodes of the problem that have all their users among them. -/
structure Closed (p : Problem N F) (scope : List N) : Prop where
  /-- They are nodes of the problem. -/
  mem_nodes {n : N} : n ∈ scope → n ∈ p.nodes
  /-- Their users are among them. -/
  mem_users {n m : N} : n ∈ scope → m ∈ p.users n → m ∈ scope

/-- The facts come from visits to some nodes, and all of those nodes are settled. -/
structure Solved (p : Problem N F) (view : F → V) (scope : List N) (facts : Facts N F) : Prop where
  /-- Where the facts come from. -/
  reached : p.Reached scope facts
  /-- No visit changes anything. -/
  settled {n : N} : n ∈ scope → p.Settled view facts n

/-- Every node that is not settled waits in the queue. -/
structure Underway (p : Problem N F) (view : F → V) (scope : List N)
    (s : Facts N F × List N) : Prop where
  /-- Where the facts come from. -/
  reached : p.Reached scope s.1
  /-- Nothing else is in the queue. -/
  queue {n : N} : n ∈ s.2 → n ∈ scope
  /-- What is not in the queue is settled. -/
  waits {n : N} : n ∈ scope → n ∈ s.2 ∨ p.Settled view s.1 n

theorem covers_reached (h : p.Reached scope facts) : facts.Covers p.nodes := by
  induction h with
  | initial => exact covers_initial p
  | visit _ _ ih => exact covers_visit ih _

/-- What holds of every far fact at the start, and of what a visit makes of such facts, holds of
every far fact that is reached. -/
theorem far_of_reached (hs : ∀ n ∈ scope, n ∈ p.nodes) {P : N → F → Prop}
    (hbottom : ∀ n, P n p.bottom) (hstart : ∀ n, P n (p.start n))
    (htransfer : ∀ facts n, n ∈ scope → (∀ m, P m (p.farOf facts m)) →
      P n (p.transfer n (p.merged facts n) (p.farOf facts n)))
    (h : p.Reached scope facts) : ∀ m, P m (p.farOf facts m) := by
  induction h with
  | initial =>
      intro m
      by_cases hm : m ∈ p.nodes
      · rw [farOf_initial hm]; exact hstart m
      · rw [farOf_initial_of_notMem hm]; exact hbottom m
  | @visit facts n h hn ih =>
      intro m
      by_cases hm : m = n
      · subst hm
        rw [farOf_visit_self (covers_reached h) (hs m hn)]
        exact htransfer facts m hn ih
      · rw [farOf_visit_ne hm]; exact ih m

/-- A node that is never visited keeps the far fact that it starts with. -/
theorem farOf_reached_of_notMem (h : p.Reached scope facts) (hn : n ∉ scope) (hm : n ∈ p.nodes) :
    p.farOf facts n = p.start n := by
  induction h with
  | initial => exact farOf_initial hm
  | @visit facts m _ hv ih =>
      have hne : n ≠ m := fun hq => hn (hq ▸ hv)
      rw [farOf_visit_ne hne, ih]

theorem nearOf_reached_of_notMem (h : p.Reached scope facts) (hn : n ∉ scope) (hm : n ∈ p.nodes) :
    p.nearOf facts n = p.bottom := by
  induction h with
  | initial => exact nearOf_initial hm
  | @visit facts m _ hv ih =>
      have hne : n ≠ m := fun hq => hn (hq ▸ hv)
      rw [nearOf_visit_ne hne, ih]

/-! ## The worklist, in any order -/

theorem worklistStep_fst {queue : List N} :
    (p.worklistStep facts n queue).1 = (p.visit facts n).1 := by
  unfold worklistStep
  split
  · rename_i h; simp [h]
  · rename_i h; simp [h]

/-- The queue after a step: the rest, and the users of a node that changed. -/
theorem worklistStep_snd {queue : List N} :
    (p.worklistStep facts n queue).2 =
      if (p.visit facts n).2 = true then queue ++ p.users n else queue := by
  unfold worklistStep
  split
  · rename_i h; simp [h]
  · rename_i h; simp [h]

theorem mem_worklistStep {queue : List N} :
    m ∈ (p.worklistStep facts n queue).2 ↔
      m ∈ queue ∨ ((p.visit facts n).2 = true ∧ m ∈ p.users n) := by
  rw [worklistStep_snd]
  split
  · rename_i h; simp [h]
  · rename_i h; simp [h]

/-- A step leaves nothing in the queue from outside of the scope. -/
theorem Closed.mem_of_mem_worklistStep (hs : p.Closed scope) (hn : n ∈ scope) {queue : List N}
    (hq : ∀ m ∈ queue, m ∈ scope) : ∀ m ∈ (p.worklistStep facts n queue).2, m ∈ scope := by
  intro m hm
  rcases mem_worklistStep.mp hm with hm | ⟨_, hm⟩
  · exact hq m hm
  · exact hs.mem_users hn hm

/-- Only a change makes the queue longer. -/
theorem length_worklistStep {queue : List N} :
    (p.worklistStep facts n queue).2.length =
      queue.length + if (p.visit facts n).2 = true then (p.users n).length else 0 := by
  rw [worklistStep_snd]
  split
  · exact List.length_append
  · rfl

theorem underway_initial : p.Underway view scope (p.initial, scope) :=
  ⟨.initial, fun h => h, fun h => Or.inl h⟩

/-- **Every step keeps the unsettled nodes in the queue.** -/
theorem underway_pick (hp : p.Lawful view) (hs : p.Closed scope) {s s' : Facts N F × List N}
    (h : p.Underway view scope s) (hstep : p.Picks s s') : p.Underway view scope s' := by
  cases hstep with
  | pick facts front n back =>
      have hn : n ∈ scope := h.queue (by simp)
      refine ⟨?_, ?_, ?_⟩
      · rw [worklistStep_fst]; exact .visit h.reached hn
      · intro m hm
        rcases mem_worklistStep.mp hm with hq | ⟨_, hu⟩
        · refine h.queue ?_
          rcases List.mem_append.mp hq with hq | hq
          · exact List.mem_append_left _ hq
          · exact List.mem_append_right _ (List.mem_cons_of_mem n hq)
        · exact hs.mem_users hn hu
      · intro m hm
        rw [mem_worklistStep, worklistStep_fst]
        by_cases hq : m ∈ front ++ back
        · exact Or.inl (Or.inl hq)
        -- a node that has left the queue was settled before, or was just visited
        have hsettled : m = n ∨ p.Settled view facts m := by
          rcases h.waits hm with hw | hw
          · refine Or.inl ?_
            simp only [List.mem_append, List.mem_cons, not_or] at hw hq
            exact (hw.resolve_left hq.1).resolve_right hq.2
          · exact Or.inr hw
        rcases hp.settled_visit (covers_reached h.reached) (hs.mem_nodes hn) hsettled with hu | hu
        · exact Or.inl (Or.inr hu)
        · exact Or.inr hu

theorem underway_run (hp : p.Lawful view) (hs : p.Closed scope) {k : Nat}
    {s s' : Facts N F × List N} (h : p.Underway view scope s) (hrun : p.Runs k s s') :
    p.Underway view scope s' := by
  induction hrun with
  | refl => exact h
  | tail _ hstep ih => exact underway_pick hp hs (ih h) hstep

/-- **A worklist that has run empty has settled every node, whatever the order.** -/
theorem solved_run (hp : p.Lawful view) (hs : p.Closed scope) {k : Nat}
    (hrun : p.Runs k (p.initial, scope) (out, [])) : p.Solved view scope out := by
  have h := underway_run hp hs underway_initial hrun
  exact ⟨h.reached, fun hn => (h.waits hn).resolve_left (by simp)⟩

theorem Runs.head {k : Nat} {s s' s'' : Facts N F × List N} (h : p.Picks s s')
    (hrun : p.Runs k s' s'') : p.Runs (k + 1) s s'' := by
  induction hrun with
  | refl => exact .tail (.refl s) h
  | tail _ hlast ih => exact .tail (ih h) hlast

/-- The worklist solver always picks the front. -/
theorem runs_of_runWorklist {fuel : Nat} {queue : List N}
    (h : p.runWorklist fuel facts queue = some out) : ∃ k, p.Runs k (facts, queue) (out, []) := by
  induction fuel generalizing facts queue with
  | zero =>
      cases queue with
      | nil => rw [runWorklist] at h; cases h; exact ⟨0, .refl _⟩
      | cons n queue => rw [runWorklist] at h; cases h
  | succ fuel ih =>
      cases queue with
      | nil => rw [runWorklist] at h; cases h; exact ⟨0, .refl _⟩
      | cons n queue =>
          rw [runWorklist] at h
          obtain ⟨k, hrun⟩ := ih h
          exact ⟨k + 1, .head (Picks.pick facts [] n queue) hrun⟩

theorem solved_solveWorklist (hp : p.Lawful view) (hs : p.Closed scope) {fuel : Nat}
    (h : p.solveWorklist fuel scope = some out) : p.Solved view scope out := by
  obtain ⟨k, hrun⟩ := runs_of_runWorklist h
  exact solved_run hp hs hrun

/-! ## Sweeps -/

/-- One visit of a sweep, with what the sweep has reported so far. -/
def sweepVisit (p : Problem N F) (s : Facts N F × Bool) (n : N) : Facts N F × Bool :=
  ((p.visit s.1 n).1, s.2 || (p.visit s.1 n).2)

theorem sweep_eq_foldl {order : List N} :
    p.sweep order facts = order.foldl p.sweepVisit (facts, false) := rfl

/-- The facts after a sweep come from visits to the swept nodes. -/
theorem reached_sweep {order : List N} (ho : ∀ n ∈ order, n ∈ scope)
    (h : p.Reached scope facts) : p.Reached scope (p.sweep order facts).1 := by
  have key : ∀ (ns : List N) (s : Facts N F × Bool), (∀ n ∈ ns, n ∈ scope) →
      p.Reached scope s.1 → p.Reached scope (ns.foldl p.sweepVisit s).1 := by
    intro ns
    induction ns with
    | nil => intro s _ h; exact h
    | cons n ns ih =>
        intro s hns h
        exact ih _ (fun m hm => hns m (List.mem_cons_of_mem n hm)) (.visit h (hns n (by simp)))
  rw [sweep_eq_foldl]
  exact key order (facts, false) ho h

/-- A sweep that changes nothing leaves its nodes settled, and those that were settled before. -/
theorem settled_sweep (hp : p.Lawful view) {order : List N} (ho : ∀ n ∈ order, n ∈ p.nodes)
    (hc : facts.Covers p.nodes) (h : p.sweep order facts = (out, false)) :
    ∀ m ∈ order, p.Settled view out m := by
  -- every node is settled already or still to be visited, and visits unsettle none
  have key : ∀ (ns : List N) (s : Facts N F × Bool), (∀ n ∈ ns, n ∈ p.nodes) →
      s.1.Covers p.nodes → ns.foldl p.sweepVisit s = (out, false) →
      s.2 = false ∧ ∀ m, m ∈ ns ∨ p.Settled view s.1 m → p.Settled view out m := by
    intro ns
    induction ns with
    | nil =>
        intro s _ _ h
        rw [List.foldl_nil] at h
        subst h
        exact ⟨rfl, fun m hm => hm.resolve_left (by simp)⟩
    | cons n ns ih =>
        intro s hns hc h
        have hn : n ∈ p.nodes := hns n (by simp)
        have hns' : ∀ m ∈ ns, m ∈ p.nodes := fun m hm => hns m (List.mem_cons_of_mem n hm)
        obtain ⟨hflag, hrest⟩ := ih (p.sweepVisit s n) hns' (covers_visit hc n) h
        simp only [sweepVisit, Bool.or_eq_false_iff] at hflag
        refine ⟨hflag.1, fun m hm => hrest m ?_⟩
        by_cases hmns : m ∈ ns
        · exact Or.inl hmns
        have hm' : m = n ∨ p.Settled view s.1 m :=
          hm.imp (fun hq => (List.mem_cons.mp hq).resolve_right hmns) id
        rcases hp.settled_visit hc hn hm' with ⟨hq, _⟩ | hq
        · exact absurd hq (by simp [hflag.2])
        · exact Or.inr hq
  rw [sweep_eq_foldl] at h
  exact fun m hm => (key order (facts, false) ho hc h).2 m (Or.inl hm)

theorem solved_runSweeps (hp : p.Lawful view) (hs : p.Closed scope) {fuel : Nat}
    (hr : p.Reached scope facts) (h : p.runSweeps scope fuel facts = some out) :
    p.Solved view scope out := by
  induction fuel generalizing facts with
  | zero => rw [runSweeps] at h; cases h
  | succ fuel ih =>
      have hr' := reached_sweep (fun n hn => hn) hr
      rw [runSweeps] at h
      split at h
      · rename_i next hsweep
        rw [hsweep] at hr'
        exact ih hr' h
      · rename_i next hsweep
        cases h
        rw [hsweep] at hr'
        exact ⟨hr', fun {n} hn => settled_sweep hp (fun m hm => hs.mem_nodes hm)
          (covers_reached hr) hsweep n hn⟩

/-- **Sweeps that have come to an end have settled every node.** -/
theorem solved_solveSweeping (hp : p.Lawful view) (hs : p.Closed scope) {fuel : Nat}
    (h : p.solveSweeping fuel scope = some out) : p.Solved view scope out :=
  solved_runSweeps hp hs .initial h

end TacFlow.Problem
