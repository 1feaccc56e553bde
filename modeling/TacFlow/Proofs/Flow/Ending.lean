import TacFlow.Proofs.Flow.Schedule

/-!
# When solvers end

A measure of the facts that falls with every change bounds how long a solver works. For sweeps it
bounds the number of sweeps, since every sweep but the last one changes something. For a worklist a
change also puts nodes in the queue, so a change has to pay for all of them: `weight` counts the
measure that many times, and the queue. The bound holds in whatever order the nodes are taken.
-/

namespace TacFlow.Problem

variable {N F V : Type} [DecidableEq N] {p : Problem N F} {view : F → V} {scope : List N}
  {facts out : Facts N F} {n m : N} {μ : Facts N F → Nat}

/-- A measure that falls with every visit that changes something, and never rises. -/
structure Descends (p : Problem N F) (scope : List N) (μ : Facts N F → Nat) : Prop where
  /-- A visit that changes the far fact lowers the measure. -/
  changed {facts : Facts N F} {n : N} : p.Reached scope facts → n ∈ scope →
    (p.visit facts n).2 = true → μ (p.visit facts n).1 < μ facts
  /-- A visit that changes nothing does not raise it. -/
  unchanged {facts : Facts N F} {n : N} : p.Reached scope facts → n ∈ scope →
    (p.visit facts n).2 = false → μ (p.visit facts n).1 ≤ μ facts

/-! ## Worklists -/

/-- More than the number of users of any node. -/
def fanout (p : Problem N F) (scope : List N) : Nat :=
  (scope.flatMap p.users).length + 1

/-- What is left to do: the measure, as often as a change may put nodes in the queue, and the
queue. -/
def weight (p : Problem N F) (scope : List N) (μ : Facts N F → Nat) (s : Facts N F × List N) :
    Nat :=
  μ s.1 * p.fanout scope + s.2.length

omit [DecidableEq N] in
theorem length_users_lt_fanout (h : n ∈ scope) : (p.users n).length < p.fanout scope := by
  have hsub := List.sublist_flatten_of_mem (List.mem_map_of_mem (f := p.users) h)
  rw [← List.flatMap_def] at hsub
  exact Nat.lt_succ_of_le hsub.length_le

/-- A step lowers the weight if a change lowers the measure. -/
theorem weight_worklistStep_lt {queue : List N} (hn : n ∈ scope)
    (hchanged : (p.visit facts n).2 = true → μ (p.visit facts n).1 < μ facts)
    (hunchanged : (p.visit facts n).2 = false → μ (p.visit facts n).1 ≤ μ facts) :
    p.weight scope μ (p.worklistStep facts n queue) <
      μ facts * p.fanout scope + (queue.length + 1) := by
  unfold weight
  rw [worklistStep_fst, length_worklistStep]
  cases hflag : (p.visit facts n).2 with
  | true =>
      have husers := length_users_lt_fanout (p := p) hn
      have hpay := Nat.mul_le_mul_right (p.fanout scope) (hchanged hflag)
      rw [Nat.succ_mul] at hpay
      simp only [if_true]
      omega
  | false =>
      have hpay := Nat.mul_le_mul_right (p.fanout scope) (hunchanged hflag)
      simp only [Bool.false_eq_true, if_false]
      omega

/-- **Every step lowers the weight**, whichever node it takes. -/
theorem weight_pick_lt (hμ : p.Descends scope μ) {s s' : Facts N F × List N}
    (h : p.Underway view scope s) (hstep : p.Picks s s') :
    p.weight scope μ s' < p.weight scope μ s := by
  cases hstep with
  | pick facts front n back =>
      have hn : n ∈ scope := h.queue (by simp)
      have hlt : p.weight scope μ (p.worklistStep facts n (front ++ back)) <
          μ facts * p.fanout scope + ((front ++ back).length + 1) :=
        weight_worklistStep_lt hn (hμ.changed h.reached hn) (hμ.unchanged h.reached hn)
      have hlen : (front ++ n :: back).length = (front ++ back).length + 1 := by
        simp only [List.length_append, List.length_cons]; omega
      rw [← hlen] at hlt
      exact hlt

/-- **No schedule is longer than the weight at the start.** -/
theorem length_add_weight_le (hp : p.Lawful view) (hs : p.Closed scope) (hμ : p.Descends scope μ)
    {k : Nat} {s : Facts N F × List N} (hrun : p.Runs k (p.initial, scope) s) :
    k + p.weight scope μ s ≤ p.weight scope μ (p.initial, scope) := by
  have key : ∀ {k : Nat} {s s' : Facts N F × List N}, p.Underway view scope s → p.Runs k s s' →
      k + p.weight scope μ s' ≤ p.weight scope μ s := by
    intro k s s' h hrun
    induction hrun with
    | refl => omega
    | tail hrun hstep ih =>
        have hlt := weight_pick_lt hμ (underway_run hp hs h hrun) hstep
        have := ih h
        omega
  exact key underway_initial hrun

theorem exists_solveWorklist (hp : p.Lawful view) (hs : p.Closed scope) (hμ : p.Descends scope μ) :
    ∃ out, p.solveWorklist (p.weight scope μ (p.initial, scope)) scope = some out := by
  have key : ∀ (fuel : Nat) (facts : Facts N F) (queue : List N),
      p.Underway view scope (facts, queue) → p.weight scope μ (facts, queue) ≤ fuel →
      ∃ out, p.runWorklist fuel facts queue = some out := by
    intro fuel
    induction fuel with
    | zero =>
        intro facts queue _ hw
        cases queue with
        | nil => exact ⟨facts, by rw [runWorklist]⟩
        | cons n queue => simp [weight] at hw
    | succ fuel ih =>
        intro facts queue h hw
        cases queue with
        | nil => exact ⟨facts, by rw [runWorklist]⟩
        | cons n queue =>
            -- taking the front is one of the steps that lower the weight
            have hstep : p.Picks (facts, n :: queue) (p.worklistStep facts n queue) :=
              Picks.pick facts [] n queue
            have hlt := weight_pick_lt hμ h hstep
            rw [runWorklist]
            exact ih _ _ (underway_pick hp hs h hstep)
              (Nat.le_of_lt_succ (Nat.lt_of_lt_of_le hlt hw))
  exact key _ _ _ underway_initial (Nat.le_refl _)

/-! ## Sweeps -/

/-- A sweep that changes something lowers the measure. -/
theorem sweep_descends (hμ : p.Descends scope μ) (h : p.Reached scope facts) :
    μ (p.sweep scope facts).1 ≤ μ facts ∧
      ((p.sweep scope facts).2 = true → μ (p.sweep scope facts).1 < μ facts) := by
  -- the bound is kept by every visit, and met strictly from the first change on
  have key : ∀ (ns : List N) (s : Facts N F × Bool) (bound : Nat),
      (∀ n ∈ ns, n ∈ scope) → p.Reached scope s.1 → μ s.1 ≤ bound → (s.2 = true → μ s.1 < bound) →
      μ (ns.foldl p.sweepVisit s).1 ≤ bound ∧
        ((ns.foldl p.sweepVisit s).2 = true → μ (ns.foldl p.sweepVisit s).1 < bound) := by
    intro ns
    induction ns with
    | nil => intro s bound _ _ hle hlt; exact ⟨hle, hlt⟩
    | cons n ns ih =>
        intro s bound hns hr hle hlt
        have hn : n ∈ scope := hns n (by simp)
        refine ih _ bound (fun m hm => hns m (List.mem_cons_of_mem n hm)) (.visit hr hn) ?_ ?_
        · cases hflag : (p.visit s.1 n).2 with
          | true => exact Nat.le_trans (Nat.le_of_lt (hμ.changed hr hn hflag)) hle
          | false => exact Nat.le_trans (hμ.unchanged hr hn hflag) hle
        · intro hc
          cases hflag : (p.visit s.1 n).2 with
          | true => exact Nat.lt_of_lt_of_le (hμ.changed hr hn hflag) hle
          | false =>
              have hc' : s.2 = true := by simpa [sweepVisit, hflag] using hc
              exact Nat.lt_of_le_of_lt (hμ.unchanged hr hn hflag) (hlt hc')
  rw [sweep_eq_foldl]
  exact key scope (facts, false) (μ facts) (fun n hn => hn) h (Nat.le_refl _) (by simp)

theorem exists_solveSweeping (hμ : p.Descends scope μ) :
    ∃ out, p.solveSweeping (μ p.initial + 1) scope = some out := by
  have key : ∀ (fuel : Nat) (facts : Facts N F), p.Reached scope facts → μ facts < fuel →
      ∃ out, p.runSweeps scope fuel facts = some out := by
    intro fuel
    induction fuel with
    | zero => intro facts _ h; omega
    | succ fuel ih =>
        intro facts hr hlt
        have hnext := reached_sweep (fun n hn => hn) hr
        have hdesc := sweep_descends hμ hr
        rw [runSweeps]
        split
        · rename_i next hsweep
          rw [hsweep] at hnext hdesc
          exact ih next hnext (Nat.lt_of_lt_of_le (hdesc.2 rfl) (Nat.le_of_lt_succ hlt))
        · rename_i next hsweep
          exact ⟨next, rfl⟩
  exact key _ _ .initial (Nat.lt_succ_self _)

end TacFlow.Problem
