import TacFlow.Flow.Solution
import TacFlow.Proofs.Flow.Rounds

/-!
# The same problem under other names

Two dataflow problems may differ in what their nodes are called and in nothing else that a run can see.
The worklist solver then does the same for both: it has the same nodes in its queue after every visit, in
the same order, it has the same facts, and it comes to its end with the same visit or not at all.

What flows into a node only matters where the node is visited. So the problems may disagree about it
outside of a scope that no visit leaves.
-/

namespace TacFlow

variable {M N F : Type} {φ : N → M}

/-! ## Tables under other names -/

/-- A table with its nodes renamed. -/
def Table.relabel (φ : N → M) (t : Table N F) : Table M F :=
  ⟨t.entries.map fun e => (φ e.1, e.2)⟩

def Facts.relabel (φ : N → M) (facts : Facts N F) : Facts M F :=
  ⟨facts.near.relabel φ, facts.far.relabel φ, facts.visits⟩

def Solution.relabel (φ : N → M) (s : Solution N F) : Solution M F :=
  ⟨s.before.relabel φ, s.after.relabel φ, s.visits⟩

theorem Table.relabel_ofNodes {fact : N → F} {fact' : M → F} (h : ∀ n, fact' (φ n) = fact n)
    (nodes : List N) : (Table.ofNodes nodes fact).relabel φ = .ofNodes (nodes.map φ) fact' := by
  simp [relabel, ofNodes, h]

section

variable [DecidableEq M] [DecidableEq N]

theorem Table.get?_relabel (hφ : Function.Injective φ) (t : Table N F) (n : N) :
    (t.relabel φ).get? (φ n) = t.get? n := by
  have hfind : (t.entries.map fun e => (φ e.1, e.2)).find? (·.1 = φ n) =
      (t.entries.find? (·.1 = n)).map fun e => (φ e.1, e.2) := by
    rw [List.find?_map]
    simp only [Function.comp_def, hφ.eq_iff]
  rw [get?, get?, relabel, hfind, Option.map_map]
  rfl

theorem Table.relabel_set (hφ : Function.Injective φ) (t : Table N F) (n : N) (fact : F) :
    (t.set n fact).relabel φ = (t.relabel φ).set (φ n) fact := by
  simp only [relabel, set, List.map_map]
  congr 1
  refine List.map_congr_left fun e _ => ?_
  by_cases he : e.1 = n
  · simp [he]
  · simp [he, hφ.ne he]

end

namespace Problem

/-! ## Problems under other names -/

/-- Two problems are the same for every visit within a scope, but for the names of the nodes. -/
structure Relabels (φ : N → M) (scope : List N) (p : Problem N F) (q : Problem M F) : Prop where
  /-- Different nodes have different names. -/
  injective : Function.Injective φ
  /-- The graphs are the same, -/
  nodes : q.nodes = p.nodes.map φ
  users (n : N) : q.users (φ n) = (p.users n).map φ
  /-- and so are the facts at the start and what is done with facts. -/
  bottom : q.bottom = p.bottom
  start (n : N) : q.start (φ n) = p.start n
  join : q.join = p.join
  same : q.same = p.same
  transfer (n : N) : q.transfer (φ n) = p.transfer n
  /-- Within the scope the same flows into a node. -/
  seed {n : N} : n ∈ scope → q.seed (φ n) = p.seed n
  inflow {n : N} : n ∈ scope → q.inflow (φ n) = (p.inflow n).map fun d => (φ d.1, d.2)
  /-- No visit leaves the scope. -/
  closed : p.Closed scope

variable {p : Problem N F} {q : Problem M F} {scope queue : List N} {facts : Facts N F} {n : N}

/-- A state of the solver with its nodes renamed. -/
def relabelState (φ : N → M) (s : Facts N F × List N) : Facts M F × List M :=
  (s.1.relabel φ, s.2.map φ)

namespace Relabels

theorem initial (h : Relabels φ scope p q) : q.initial = p.initial.relabel φ := by
  have hnear : Table.ofNodes q.nodes (fun _ => q.bottom) =
      (Table.ofNodes p.nodes fun _ => p.bottom).relabel φ := by
    rw [h.nodes, h.bottom]
    exact (Table.relabel_ofNodes (fun _ => rfl) p.nodes).symm
  have hfar : Table.ofNodes q.nodes q.start = (Table.ofNodes p.nodes p.start).relabel φ := by
    rw [h.nodes, Table.relabel_ofNodes h.start]
  rw [Problem.initial, hnear, hfar]
  rfl

variable [DecidableEq M] [DecidableEq N]

theorem farOf (h : Relabels φ scope p q) (facts : Facts N F) (n : N) :
    q.farOf (facts.relabel φ) (φ n) = p.farOf facts n := by
  change ((facts.far.relabel φ).get? (φ n)).getD q.bottom = (facts.far.get? n).getD p.bottom
  rw [Table.get?_relabel h.injective, h.bottom]

theorem merged (h : Relabels φ scope p q) (hn : n ∈ scope) :
    q.merged (facts.relabel φ) (φ n) = p.merged facts n := by
  rw [Problem.merged, Problem.merged, h.seed hn, h.inflow hn, h.join, List.foldl_map]
  simp only [h.farOf]

/-- One visit changes the same facts in the same way. -/
theorem visit (h : Relabels φ scope p q) (hn : n ∈ scope) :
    q.visit (facts.relabel φ) (φ n) = ((p.visit facts n).1.relabel φ, (p.visit facts n).2) := by
  have htransfer : q.transfer (φ n) (q.merged (facts.relabel φ) (φ n))
      (q.farOf (facts.relabel φ) (φ n)) = p.transfer n (p.merged facts n) (p.farOf facts n) := by
    rw [h.merged hn, h.farOf, h.transfer]
  have hchanges : q.changes (q.merged (facts.relabel φ) (φ n)) (q.farOf (facts.relabel φ) (φ n)) (φ n) =
      p.changes (p.merged facts n) (p.farOf facts n) n := by
    rw [Problem.changes, Problem.changes, htransfer, h.farOf, h.same]
  have hnear : (facts.relabel φ).near.set (φ n) (q.merged (facts.relabel φ) (φ n)) =
      (facts.near.set n (p.merged facts n)).relabel φ := by
    rw [h.merged hn, Table.relabel_set h.injective]
    rfl
  have hfar : (facts.relabel φ).far.set (φ n) (p.transfer n (p.merged facts n) (p.farOf facts n)) =
      (facts.far.set n (p.transfer n (p.merged facts n) (p.farOf facts n))).relabel φ := by
    rw [Table.relabel_set h.injective]
    rfl
  simp only [Problem.visit]
  rw [hnear, htransfer, hchanges, hfar]
  rfl

/-- One step does the same for the queue. -/
theorem worklistStep (h : Relabels φ scope p q) (hn : n ∈ scope) :
    q.worklistStep (facts.relabel φ) (φ n) (queue.map φ) =
      relabelState φ (p.worklistStep facts n queue) := by
  rw [Problem.worklistStep, Problem.worklistStep, h.visit hn, h.users]
  rcases p.visit facts n with ⟨facts', _ | _⟩
  · rfl
  · rw [relabelState, List.map_append]

/-- **After every number of visits the two runs are in the same state.** -/
theorem turns (h : Relabels φ scope p q) (k : Nat) {s : Facts N F × List N}
    (hs : ∀ m ∈ s.2, m ∈ scope) :
    q.turn^[k] (relabelState φ s) = relabelState φ (p.turn^[k] s) := by
  induction k generalizing s with
  | zero => rfl
  | succ k ih =>
      obtain ⟨facts, queue⟩ := s
      rw [Function.iterate_succ_apply, Function.iterate_succ_apply]
      cases queue with
      | nil => exact ih hs
      | cons n queue =>
          have hn : n ∈ scope := hs n List.mem_cons_self
          have hqueue : ∀ m ∈ queue, m ∈ scope := fun m hm => hs m (List.mem_cons_of_mem n hm)
          have hturn : q.turn (relabelState φ (facts, n :: queue)) =
              relabelState φ (p.turn (facts, n :: queue)) := h.worklistStep hn
          rw [hturn]
          exact ih (h.closed.mem_of_mem_worklistStep hn hqueue)

theorem turns_initial (h : Relabels φ scope p q) (k : Nat) :
    q.turn^[k] (q.initial, scope.map φ) = relabelState φ (p.turn^[k] (p.initial, scope)) := by
  rw [h.initial]
  exact h.turns k (s := (p.initial, scope)) fun _ hm => hm

/-- The solvers return after the same visits, with the same facts. -/
theorem runWorklist (h : Relabels φ scope p q) (fuel : Nat) (hq : ∀ m ∈ queue, m ∈ scope) :
    q.runWorklist fuel (facts.relabel φ) (queue.map φ) =
      (p.runWorklist fuel facts queue).map (Facts.relabel φ) := by
  induction fuel generalizing facts queue with
  | zero => cases queue <;> rfl
  | succ fuel ih =>
      cases queue with
      | nil => rfl
      | cons n queue =>
          have hn : n ∈ scope := hq n List.mem_cons_self
          have hqueue : ∀ m ∈ queue, m ∈ scope := fun m hm => hq m (List.mem_cons_of_mem n hm)
          rw [List.map_cons, Problem.runWorklist, Problem.runWorklist, h.worklistStep hn]
          exact ih (h.closed.mem_of_mem_worklistStep hn hqueue)

end Relabels

end Problem

end TacFlow
