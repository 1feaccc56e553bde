import Mathlib.Logic.Function.Iterate
import TacFlow.Proofs.Flow.Ending

/-!
# Rounds of a solver

The solvers as machines that go on for ever. A round of the worklist solver is a visit, a round of
the sweeping solver is a sweep, and a solver that is done stays as it is. A solver returns what it
has when it is done, so it returns if and only if it is done after some number of rounds.

A machine is done some day if a weight falls with every round from some round on, and it never is if
it comes back to where it has been. For the second it is enough to look at the far facts, since
nothing else is ever read.
-/

namespace TacFlow

/-! ## Machines -/

section

variable {σ : Type} {next : σ → σ} {done : σ → Prop} {s : σ}

theorem iterate_of_done (hstay : ∀ s, done s → next s = s) (h : done s) (k : Nat) :
    next^[k] s = s :=
  Function.iterate_fixed (hstay s h) k

theorem iterate_eq_of_done (hstay : ∀ s, done s → next s = s) {k j : Nat} (h : done (next^[k] s))
    (hj : k ≤ j) : next^[j] s = next^[k] s := by
  rw [← Nat.sub_add_cancel hj, Function.iterate_add_apply]
  exact iterate_of_done hstay h _

/-- A weight that falls with every round, from some round on, brings a machine to its end. -/
theorem exists_done_of_weight (done : σ → Prop) (weight : σ → Nat) {i : Nat}
    (h : ∀ j, i ≤ j → ¬ done (next^[j] s) → weight (next^[j + 1] s) < weight (next^[j] s)) :
    ∃ k, done (next^[k] s) := by
  by_contra hnone
  have hbusy : ∀ k, ¬ done (next^[k] s) := fun k hk => hnone ⟨k, hk⟩
  have key : ∀ j, j + weight (next^[i + j] s) ≤ weight (next^[i] s) := by
    intro j
    induction j with
    | zero => exact Nat.le_of_eq (Nat.zero_add _)
    | succ j ih =>
        have hlt := h (i + j) (Nat.le_add_right i j) (hbusy (i + j))
        rw [Nat.add_assoc] at hlt
        omega
  have := key (weight (next^[i] s) + 1)
  omega

/-- **A machine that comes back to where it was busy is never done.** -/
theorem not_done_of_return (hstay : ∀ s, done s → next s = s) {i k : Nat} (hk : 0 < k)
    (hback : next^[k] (next^[i] s) = next^[i] s) (hbusy : ¬ done (next^[i] s)) (m : Nat) :
    ¬ done (next^[m] s) := by
  intro hdone
  refine hbusy ?_
  -- far enough round the cycle, the machine stands still and is back
  have hround : next^[k * m] (next^[i] s) = next^[i] s := by
    rw [Function.iterate_mul]
    exact Function.iterate_fixed hback m
  have hle : m ≤ k * m + i := Nat.le_add_right_of_le (Nat.le_mul_of_pos_left m hk)
  rw [← hround, ← Function.iterate_add_apply, iterate_eq_of_done hstay hdone hle]
  exact hdone

end

namespace Problem

variable {N F V : Type} [DecidableEq N] {p : Problem N F} {view : F → V}
  {scope order queue : List N} {facts out : Facts N F} {n m : N} {k : Nat}

/-! ## Rounds of the worklist solver -/

/-- One round of the worklist solver. -/
def turn (p : Problem N F) (s : Facts N F × List N) : Facts N F × List N :=
  match s.2 with
  | [] => s
  | n :: queue => p.worklistStep s.1 n queue

theorem turn_of_empty (s : Facts N F × List N) (h : s.2 = []) : p.turn s = s := by
  unfold turn
  rw [h]

theorem turn_cons : p.turn (facts, n :: queue) = p.worklistStep facts n queue := rfl

/-- **The worklist solver returns what it has when its queue is empty.** -/
theorem runWorklist_eq_some_iff :
    p.runWorklist k facts queue = some out ↔ p.turn^[k] (facts, queue) = (out, []) := by
  induction k generalizing facts queue with
  | zero =>
      cases queue with
      | nil => simp [runWorklist]
      | cons n queue => simp [runWorklist]
  | succ k ih =>
      cases queue with
      | nil =>
          rw [runWorklist, iterate_of_done turn_of_empty (s := (facts, [])) rfl]
          simp
      | cons n queue =>
          rw [runWorklist, Function.iterate_succ_apply, turn_cons]
          exact ih

/-- What is returned does not depend on how many visits are allowed. -/
theorem eq_of_runWorklist {j : Nat} {out' : Facts N F} (h : p.runWorklist k facts queue = some out)
    (h' : p.runWorklist j facts queue = some out') : out = out' := by
  rw [runWorklist_eq_some_iff] at h h'
  have hdone : ∀ {i o}, p.turn^[i] (facts, queue) = (o, []) → (p.turn^[i] (facts, queue)).2 = [] :=
    fun h => by rw [h]
  rcases Nat.le_total k j with hle | hle
  · have heq := iterate_eq_of_done turn_of_empty (hdone h) hle
    rw [h, h'] at heq
    exact (congrArg Prod.fst heq).symm
  · have heq := iterate_eq_of_done turn_of_empty (hdone h') hle
    rw [h, h'] at heq
    exact congrArg Prod.fst heq

/-- What a solver has reached by its visits. -/
theorem reached_turn (hs : p.Closed scope) {s : Facts N F × List N} (hq : ∀ n ∈ s.2, n ∈ scope)
    (hr : p.Reached scope s.1) :
    (∀ n ∈ (p.turn s).2, n ∈ scope) ∧ p.Reached scope (p.turn s).1 := by
  obtain ⟨facts, queue⟩ := s
  cases queue with
  | nil => exact ⟨hq, hr⟩
  | cons n queue =>
      have hn : n ∈ scope := hq n (by simp)
      rw [turn_cons, worklistStep_fst]
      exact ⟨hs.mem_of_mem_worklistStep hn fun m hm => hq m (List.mem_cons_of_mem n hm), .visit hr hn⟩

theorem reached_turns (hs : p.Closed scope) (k : Nat) :
    (∀ n ∈ (p.turn^[k] (p.initial, scope)).2, n ∈ scope) ∧
      p.Reached scope (p.turn^[k] (p.initial, scope)).1 := by
  induction k with
  | zero => exact ⟨fun _ hn => hn, .initial⟩
  | succ k ih =>
      rw [Function.iterate_succ_apply']
      exact reached_turn hs ih.1 ih.2

/-! ## Rounds of the sweeping solver -/

/-- One round of the sweeping solver. The flag tells whether the sweep before changed anything. -/
def sweepTurn (p : Problem N F) (order : List N) (s : Facts N F × Bool) : Facts N F × Bool :=
  if s.2 = true then p.sweep order s.1 else s

theorem sweepTurn_of_still (s : Facts N F × Bool) (h : s.2 = false) : p.sweepTurn order s = s := by
  simp [sweepTurn, h]

theorem sweepTurn_busy : p.sweepTurn order (facts, true) = p.sweep order facts := rfl

/-- **The sweeping solver returns what it has when a sweep has changed nothing.** -/
theorem runSweeps_eq_some_iff :
    p.runSweeps order k facts = some out ↔
      (p.sweepTurn order)^[k] (facts, true) = (out, false) := by
  induction k generalizing facts with
  | zero => simp [runSweeps]
  | succ k ih =>
      rw [runSweeps, Function.iterate_succ_apply, sweepTurn_busy]
      split
      · rename_i next hsweep
        rw [hsweep]
        exact ih
      · rename_i next hsweep
        rw [hsweep, iterate_of_done sweepTurn_of_still (s := (next, false)) rfl]
        simp

theorem reached_sweepTurns (k : Nat) :
    p.Reached scope ((p.sweepTurn scope)^[k] (p.initial, true)).1 := by
  induction k with
  | zero => exact .initial
  | succ k ih =>
      rw [Function.iterate_succ_apply', sweepTurn]
      split
      · exact reached_sweep (fun _ hn => hn) ih
      · exact ih

theorem farOf_foldl_of_notMem {s : Facts N F × Bool} (hm : m ∉ order) :
    p.farOf (order.foldl p.sweepVisit s).1 m = p.farOf s.1 m := by
  induction order generalizing s with
  | nil => rfl
  | cons n order ih =>
      rw [List.mem_cons, not_or] at hm
      rw [List.foldl_cons, ih hm.2]
      exact farOf_visit_ne hm.1

/-- A sweep that visits no node twice and reports a change has changed a far fact for good. -/
theorem exists_farOf_sweep_ne (hp : p.Lawful view) (hnd : order.Nodup)
    (hmem : ∀ n ∈ order, n ∈ p.nodes) (hc : facts.Covers p.nodes)
    (h : (p.sweep order facts).2 = true) :
    ∃ n ∈ order, view (p.farOf (p.sweep order facts).1 n) ≠ view (p.farOf facts n) := by
  have key : ∀ (ns : List N) (s : Facts N F × Bool), ns.Nodup → (∀ n ∈ ns, n ∈ p.nodes) →
      s.1.Covers p.nodes → (ns.foldl p.sweepVisit s).2 = true →
      s.2 = true ∨
        ∃ n ∈ ns, view (p.farOf (ns.foldl p.sweepVisit s).1 n) ≠ view (p.farOf s.1 n) := by
    intro ns
    induction ns with
    | nil => intro s _ _ _ h; exact Or.inl h
    | cons n ns ih =>
        intro s hnd hmem hc h
        rw [List.nodup_cons] at hnd
        have hn : n ∈ p.nodes := hmem n (by simp)
        have hrest := ih (p.sweepVisit s n) hnd.2 (fun m hm => hmem m (List.mem_cons_of_mem n hm))
          (covers_visit hc n) h
        rcases hrest with hflag | ⟨m, hm, hne⟩
        · rw [sweepVisit, Bool.or_eq_true] at hflag
          refine hflag.imp id fun hchanged => ⟨n, by simp, ?_⟩
          -- the node is not visited again
          rw [List.foldl_cons, farOf_foldl_of_notMem hnd.1]
          exact hp.farOf_visit_of_changed hc hn hchanged
        · refine Or.inr ⟨m, List.mem_cons_of_mem n hm, ?_⟩
          have hmn : m ≠ n := fun hq => hnd.1 (hq ▸ hm)
          exact fun hq => hne (hq.trans (congrArg view (farOf_visit_ne hmn).symm))
  rw [sweep_eq_foldl] at h ⊢
  exact (key order (facts, false) hnd hmem hc h).resolve_left (by simp)

/-! ## The far facts alone -/

/-- One round of the worklist solver, on the far facts. -/
def farTurn (p : Problem N F) (s : Table N F × List N) : Table N F × List N :=
  let next := p.turn (⟨s.1, s.1, 0⟩, s.2)
  (next.1.far, next.2)

/-- One round of the sweeping solver, on the far facts. -/
def farSweepTurn (p : Problem N F) (order : List N) (s : Table N F × Bool) : Table N F × Bool :=
  let next := p.sweepTurn order (⟨s.1, s.1, 0⟩, s.2)
  (next.1.far, next.2)

/-- A visit reads nothing but far facts. -/
theorem visit_of_far_eq {facts' : Facts N F} (h : facts.far = facts'.far) :
    (p.visit facts n).1.far = (p.visit facts' n).1.far ∧
      (p.visit facts n).2 = (p.visit facts' n).2 := by
  have hfar : p.farOf facts = p.farOf facts' := by
    funext m
    rw [farOf, h, farOf]
  have hmerged : p.merged facts n = p.merged facts' n := by
    rw [merged, hfar, merged]
  refine ⟨?_, ?_⟩
  · change facts.far.set n _ = facts'.far.set n _
    rw [h, hmerged, hfar]
  · change p.changes _ _ n = p.changes _ _ n
    rw [hmerged, hfar]

theorem semiconj_farTurn :
    Function.Semiconj (fun s : Facts N F × List N => (s.1.far, s.2)) p.turn p.farTurn := by
  rintro ⟨facts, queue⟩
  cases queue with
  | nil => rfl
  | cons n queue =>
      let same : Facts N F := ⟨facts.far, facts.far, 0⟩
      have hsame : facts.far = same.far := rfl
      obtain ⟨hfar, hflag⟩ := visit_of_far_eq (p := p) (n := n) hsame
      unfold farTurn
      simp only [turn_cons, worklistStep_fst, worklistStep_snd, hfar, hflag, same]

theorem semiconj_farSweepTurn :
    Function.Semiconj (fun s : Facts N F × Bool => (s.1.far, s.2)) (p.sweepTurn order)
      (p.farSweepTurn order) := by
  have key : ∀ (ns : List N) (s s' : Facts N F × Bool), s.1.far = s'.1.far → s.2 = s'.2 →
      (ns.foldl p.sweepVisit s).1.far = (ns.foldl p.sweepVisit s').1.far ∧
        (ns.foldl p.sweepVisit s).2 = (ns.foldl p.sweepVisit s').2 := by
    intro ns
    induction ns with
    | nil => intro s s' h hflag; exact ⟨h, hflag⟩
    | cons n ns ih =>
        intro s s' h hflag
        obtain ⟨hfar, hvisit⟩ := visit_of_far_eq (p := p) (n := n) h
        refine ih _ _ hfar ?_
        rw [sweepVisit, sweepVisit, hflag, hvisit]
  rintro ⟨facts, changed⟩
  cases changed with
  | false => rfl
  | true =>
      obtain ⟨hfar, hflag⟩ := key order (facts, false) (⟨facts.far, facts.far, 0⟩, false) rfl rfl
      exact Prod.ext hfar hflag

/-- **A worklist solver whose far facts and queue come back goes on for ever.** -/
theorem runWorklist_eq_none_of_return {i k : Nat} (hk : 0 < k)
    (hback : p.farTurn^[k] (p.farTurn^[i] (facts.far, queue)) = p.farTurn^[i] (facts.far, queue))
    (hbusy : (p.farTurn^[i] (facts.far, queue)).2 ≠ []) (fuel : Nat) :
    p.runWorklist fuel facts queue = none := by
  rw [Option.eq_none_iff_forall_ne_some]
  intro out hout
  have hstay : ∀ s : Table N F × List N, s.2 = [] → p.farTurn s = s := by
    intro s hs
    unfold farTurn
    rw [turn_of_empty _ hs]
  refine not_done_of_return hstay hk hback hbusy fuel ?_
  have hsame := (semiconj_farTurn (p := p)).iterate_right fuel (facts, queue)
  rw [runWorklist_eq_some_iff.mp hout] at hsame
  exact (congrArg Prod.snd hsame).symm

/-- **A sweeping solver whose far facts come back goes on for ever.** -/
theorem runSweeps_eq_none_of_return {i k : Nat} (hk : 0 < k)
    (hback : (p.farSweepTurn order)^[k] ((p.farSweepTurn order)^[i] (facts.far, true)) =
      (p.farSweepTurn order)^[i] (facts.far, true))
    (hbusy : ((p.farSweepTurn order)^[i] (facts.far, true)).2 = true) (fuel : Nat) :
    p.runSweeps order fuel facts = none := by
  rw [Option.eq_none_iff_forall_ne_some]
  intro out hout
  have hstay : ∀ s : Table N F × Bool, s.2 = false → p.farSweepTurn order s = s := by
    intro s hs
    unfold farSweepTurn
    rw [sweepTurn_of_still _ hs]
  refine not_done_of_return hstay hk hback (by simp [hbusy]) fuel ?_
  have hsemi : Function.Semiconj _ (p.sweepTurn order) (p.farSweepTurn order) :=
    semiconj_farSweepTurn
  have hsame := hsemi.iterate_right fuel (facts, true)
  rw [runSweeps_eq_some_iff.mp hout] at hsame
  exact (congrArg Prod.snd hsame).symm

end Problem

end TacFlow
