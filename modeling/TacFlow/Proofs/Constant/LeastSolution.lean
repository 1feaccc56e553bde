import TacFlow.Proofs.Constant.Termination

/-!
# The least solution

Where every quotient has a literal for one of its operands, no quotient falls, and constant
propagation is what it looks like: the least solution of its equations. The order in which nodes are
visited makes no difference then, neither for the result nor for the end of the search.

A solver never gets above a solution, since what it starts with lies below every solution and
visits respect the order. What it ends with is a solution itself: the far facts have only risen, so
no binding has survived that the environment before the node would not give again.
-/

namespace TacFlow

/-! ## Quotients by literals -/

def Expr.isLiteral : Expr → Bool
  | .lit _ => true
  | _ => false

/-- Whether an expression is no quotient or remainder, or one of its operands is a literal. -/
def Expr.dividesLiteral : Expr → Bool
  | .binary op left right => !op.isDivision || left.isLiteral || right.isLiteral
  | _ => true

/-- Whether a statement assigns no other value. -/
def Stmt.dividesLiteral : Stmt → Bool
  | .assign _ value => value.dividesLiteral
  | _ => true

/-- Every quotient and every remainder has a literal for one of its operands. -/
def Body.DividesLiterals (b : Body) : Prop :=
  ∀ s ∈ b.stmts, s.dividesLiteral = true

namespace Constants

variable {g : Cfg} {b : Body} {facts : Facts Point Env} {before after before' after' : Point → Env}
  {n : Point} {f f' : Env} {s : Option Stmt}

theorem not_hazardAt (h : b.DividesLiterals) : ¬ b.HazardAt n := by
  rintro ⟨s, hs, hhazard⟩
  unfold Body.isHazard at hhazard
  split at hhazard
  · rename_i x op y z
    have hdiv := h _ (mem_stmts_of_at? hs)
    simp only [Stmt.dividesLiteral, Expr.dividesLiteral, Expr.isLiteral, Bool.or_false,
      Bool.not_eq_true'] at hdiv
    simp [hdiv] at hhazard
  · exact absurd hhazard (by simp)

theorem calm_of_dividesLiterals (h : b.DividesLiterals) (n : Point) : b.Calm n :=
  fun _ hhazard => absurd hhazard (not_hazardAt h)

theorem hazardsEnd_of_dividesLiterals (h : b.DividesLiterals) : b.HazardsEnd :=
  fun _ _ hhazard => absurd hhazard (not_hazardAt h)

/-- No quotient falls between any two environments. -/
theorem steady_of_dividesLiterals (h : b.DividesLiterals) (n : Point) (f f' : Env) :
    Steady (b.at? n) f f' := by
  rintro x op left right hs _ ⟨hop, hl, hr, _⟩
  have hdiv := h _ (mem_stmts_of_at? hs)
  simp only [Stmt.dividesLiteral, Expr.dividesLiteral, hop, Bool.not_true, Bool.false_or,
    Bool.or_eq_true] at hdiv
  -- the value of a literal is neither `nac` nor `unassigned`
  rcases hdiv with hlit | hlit
  · cases left with
    | lit k => exact absurd hl (by simp [Expr.eval])
    | _ => exact absurd hlit (by simp [Expr.isLiteral])
  · cases right with
    | lit k => exact absurd hr (by simp [Expr.eval])
    | _ => exact absurd hlit (by simp [Expr.isLiteral])

/-! ## Solutions of the equations -/

/-- The equations of constant propagation. -/
structure IsSolution (g : Cfg) (before after : Point → Env) : Prop where
  /-- Nothing is known before the entry. -/
  entry_before : (before .entry).get = Env.empty.get
  /-- Behind the entry is the boundary. -/
  entry_after : (after .entry).get = (boundary g.body).get
  /-- Before any other node is the join of what is after its predecessors. -/
  before_eq {n : Point} : n ∈ g.nodes → n ≠ .entry → (before n).get = (joined g after n).get
  /-- After it is what is before it, but for the value of the variable that it assigns. -/
  after_eq {n : Point} : n ∈ g.nodes → n ≠ .entry → (after n).get = flow (g.body.at? n) (before n)

/-- A solution below every other solution, at every node. -/
structure IsLeastSolution (g : Cfg) (before after : Point → Env) : Prop
    extends IsSolution g before after where
  /-- It lies below every solution. -/
  le {before' after' : Point → Env} {n : Point} : IsSolution g before' after' → n ∈ g.nodes →
    (before n).get ≤ (before' n).get ∧ (after n).get ≤ (after' n).get

/-- There is one least solution only. -/
theorem IsLeastSolution.get_eq (h : IsLeastSolution g before after)
    (h' : IsLeastSolution g before' after') (hn : n ∈ g.nodes) :
    (before n).get = (before' n).get ∧ (after n).get = (after' n).get := by
  obtain ⟨hbefore, hafter⟩ := h.le h'.toIsSolution hn
  obtain ⟨hbefore', hafter'⟩ := h'.le h.toIsSolution hn
  exact ⟨le_antisymm hbefore hbefore', le_antisymm hafter hafter'⟩

theorem joined_mono (h : ∀ q ∈ g.preds n, (after q).get ≤ (after' q).get) :
    (joined g after n).get ≤ (joined g after' n).get :=
  joined_le_iff.mpr fun q hq => (h q hq).trans (joined_le_iff.mp le_rfl q hq)

/-! ## What solvers find is below every solution -/

/-- A transfer makes nothing but the flow and what was known before. -/
theorem get_transferStmt_le {m : Var → Value} (hflow : flow s f ≤ m) (hformer : f'.get ≤ m) :
    (transferStmt s f f').get ≤ m := by
  intro y
  by_cases hy : ∃ v, s.bind (assigned f) = some (y, v)
  · obtain ⟨v, hv⟩ := hy
    rw [get_transferStmt_assigned hv, ← flow_assigned hv]
    exact hflow y
  · have hk : ∀ v, s.bind (assigned f) ≠ some (y, v) := fun v hv => hy ⟨v, hv⟩
    rw [get_transferStmt_kept hk]
    split
    · exact hformer y
    · rw [← flow_kept hk]
      exact hflow y

section

variable (hflat : ∀ s ∈ b.stmts, s.isFlat = true) (hlit : b.DividesLiterals)

include hflat hlit

theorem flow_mono_of_dividesLiterals (h : f.get ≤ f'.get) :
    flow (b.at? n) f ≤ flow (b.at? n) f' :=
  flow_mono (fun s hs => hflat s (mem_stmts_of_at? hs)) h (steady_of_dividesLiterals hlit n f f')

/-- **A solver stays below every solution.** -/
theorem far_le_solution (hsol : IsSolution (.ofBody b) before after) (hr : Reaches b facts)
    (n : Point) (hn : n ∈ b.points) :
    ((problem (.ofBody b)).farOf facts n).get ≤ (after n).get := by
  refine Problem.far_of_reached (fun n hn => mem_nodes_of_mem_visited hn)
    (P := fun n f => n ∈ b.points → f.get ≤ (after n).get) ?_ ?_ ?_ hr n hn
  · exact fun n _ y => Value.unassigned_le _
  · intro n _
    change (if n = .entry then boundary b else .empty).get ≤ _
    split
    · rename_i hentry
      rw [hentry]
      exact hsol.entry_after.ge
    · exact fun y => Value.unassigned_le _
  · intro facts n hvisited hfar hn
    have hne := (mem_visited.mp hvisited).2
    refine get_transferStmt_le ?_ (hfar n hn)
    rw [hsol.after_eq hn hne]
    refine flow_mono_of_dividesLiterals hflat hlit ?_
    rw [merged_eq_joined, hsol.before_eq hn hne]
    exact joined_mono fun q hq => hfar q (Cfg.mem_points_of_mem_preds hq)

/-- **Settled facts are the least solution.** -/
theorem isLeastSolution_of_solved
    (h : (problem (.ofBody b)).Solved Env.get (visited (.ofBody b)) facts) :
    IsLeastSolution (.ofBody b) ((problem (.ofBody b)).nearOf facts)
      ((problem (.ofBody b)).farOf facts) where
  entry_before := by
    have hn : Point.entry ∈ (problem (.ofBody b)).nodes := b.entry_mem_points
    rw [Problem.nearOf_reached_of_notMem h.reached (by simp [mem_visited]) hn]
    rfl
  entry_after := (stable_of_solved h).entry
  before_eq hn hne := by
    rw [(h.settled (mem_visited.mpr ⟨hn, hne⟩)).near, merged_eq_joined]
  after_eq {n} hn hne := by
    have hvisited := mem_visited.mpr ⟨hn, hne⟩
    have hsettled := h.settled hvisited
    -- the far fact has only risen, so it holds nothing that the flow would not give again
    have hascent := ascending_of_reaches hflat h.reached n hvisited (calm_of_dividesLiterals hlit n)
    have hbelow := hascent.trans (flow_mono_of_dividesLiterals hflat hlit hsettled.near.ge)
    exact hsettled.far.symm.trans (get_transferStmt_of_le hbelow)
  le {before' after' n} hsol hn := by
    refine ⟨?_, far_le_solution hflat hlit hsol h.reached n hn⟩
    by_cases hne : n = .entry
    · subst hne
      rw [Problem.nearOf_reached_of_notMem h.reached (by simp [mem_visited]) hn]
      exact hsol.entry_before.ge
    · rw [(h.settled (mem_visited.mpr ⟨hn, hne⟩)).near, merged_eq_joined, hsol.before_eq hn hne]
      exact joined_mono fun q hq =>
        far_le_solution hflat hlit hsol h.reached q (Cfg.mem_points_of_mem_preds hq)

end

/-! ## Every order of visits finds it -/

/-- The facts of a solution, at every node. -/
def Agrees (b : Body) (s : Solution Point Env) (before after : Point → Env) : Prop :=
  ∀ n ∈ b.points, (∃ f, s.before.get? n = some f ∧ f.get = (before n).get) ∧
    ∃ f, s.after.get? n = some f ∧ f.get = (after n).get

theorem agrees_of_solved (hb : b.WellFormed) (hlit : b.DividesLiterals)
    (hleast : IsLeastSolution (.ofBody b) before after)
    (h : (problem (.ofBody b)).Solved Env.get (visited (.ofBody b)) facts) :
    Agrees b facts.forward before after := by
  intro n hn
  have hc := Problem.covers_reached h.reached
  obtain ⟨hnear, hfar⟩ :=
    (isLeastSolution_of_solved (fun _ hs => hb.flat hs) hlit h).get_eq hleast hn
  exact ⟨⟨_, Problem.get?_near hc hn, hnear⟩, ⟨_, Problem.get?_far hc hn, hfar⟩⟩

/-- **All orders of visits end with the least solution**, where every quotient has a literal for one
of its operands. Both solvers return it, and so does a worklist solver that takes the nodes of its
queue in any order whatsoever: none of its runs is longer than some bound, and a run that cannot go
on has arrived there. -/
theorem exists_leastSolution [Nesting] (hparsed : b.Parsed) (hlit : b.DividesLiterals) :
    ∃ before after, IsLeastSolution (.ofBody b) before after ∧
      (∀ solver, ∃ s, Returns (.ofBody b) solver s) ∧
      (∀ solver s, Returns (.ofBody b) solver s → Agrees b s before after) ∧
      ∃ bound, ∀ k s,
        (problem (.ofBody b)).Runs k ((problem (.ofBody b)).initial, visited (.ofBody b)) s →
          k ≤ bound ∧
            ((∀ s', ¬ (problem (.ofBody b)).Picks s s') → Agrees b s.1.forward before after) := by
  have hb := hparsed.wellFormed
  have hflat : ∀ s ∈ b.stmts, s.isFlat = true := fun _ hs => hb.flat hs
  obtain ⟨μ, hμ⟩ := exists_descends hb (hazardsEnd_of_dividesLiterals hlit)
  have hreturns := exists_returns_of_descends hb.linked hμ
  -- what one of the solvers returns is the least solution
  obtain ⟨s₀, hs₀⟩ := hreturns .worklist
  obtain ⟨facts₀, hsolved₀, _⟩ := solved_of_returns hb.linked hs₀
  have hleast := isLeastSolution_of_solved hflat hlit hsolved₀
  let bound := (problem (.ofBody b)).weight (visited (.ofBody b)) μ
    ((problem (.ofBody b)).initial, visited (.ofBody b))
  refine ⟨_, _, hleast, hreturns, ?_, bound, ?_⟩
  · intro solver s hs
    obtain ⟨facts, hsolved, rfl⟩ := solved_of_returns hb.linked hs
    exact agrees_of_solved hb hlit hleast hsolved
  · rintro k ⟨facts, queue⟩ hrun
    refine ⟨(Nat.le_add_right _ _).trans
      (Problem.length_add_weight_le (lawful _) (closed hb.linked) hμ hrun), fun hstuck => ?_⟩
    cases queue with
    | nil =>
        have hsolved := Problem.solved_run (lawful _) (closed hb.linked) hrun
        exact agrees_of_solved hb hlit hleast hsolved
    | cons n queue => exact absurd (Problem.Picks.pick facts [] n queue) (hstuck _)

theorem exists_leastSolution_countdown :
    countdown.Parsed ∧ countdown.DividesLiterals ∧
      ∃ before after, IsLeastSolution (.ofBody countdown) before after ∧
        ∀ solver, ∃ s, Returns (.ofBody countdown) solver s ∧ Agrees countdown s before after := by
  have hlit : countdown.DividesLiterals := by
    unfold Body.DividesLiterals
    decide
  obtain ⟨before, after, hleast, hreturns, hagrees, _⟩ :=
    exists_leastSolution parsed_countdown hlit
  refine ⟨parsed_countdown, hlit, before, after, hleast, fun solver => ?_⟩
  obtain ⟨s, hs⟩ := hreturns solver
  exact ⟨s, hs, hagrees solver s hs⟩

end Constants

end TacFlow
