import TacFlow.Proofs.Code.Shape
import TacFlow.Proofs.Constant.Lookup
import TacFlow.Proofs.Flow.Graph
import TacFlow.Proofs.Flow.Schedule

/-!
# The equations of constant propagation

What a solved constant propagation satisfies, whichever solver was used. The environment before a
node is the join of those after its predecessors, and the environment after it gives a tracked
variable that the node assigns the value of what it assigns. For every other variable it agrees with
the environment before, except that it may still know something where that one knows nothing.

The equations hold because the problem is lawful, and nothing else about the solvers matters.
-/

namespace TacFlow

theorem Expr.eval_congr {f g : Env} (h : f.get = g.get) (e : Expr) : e.eval f = e.eval g := by
  induction e using Expr.eval.induct with
  | case1 n => rfl
  | case2 x => exact congrFun h x
  | case3 op left right ihl ihr => rw [eval, eval, ihl, ihr]
  | case4 e hl hv hb => cases e <;> simp_all [eval]

namespace Constants

variable {g : Cfg} {b : Body} {p q n : Point} {facts : Facts Point Env} {before after : Env}
  {s : Option Stmt} {x y : Var} {v : Value}

/-! ## Transfers -/

theorem assigned_congr {f f' : Env} (h : f.get = f'.get) (s : Stmt) :
    assigned f s = assigned f' s := by
  unfold assigned
  simp only [Expr.eval_congr h]

/-- A statement that defines a tracked variable assigns it the value of its expression. -/
theorem assigned_of_definition (f : Env) {s : Stmt} {e : Expr} (hd : s.definition = some (x, e)) :
    assigned f s = if x.isIntLike then some (x, e.eval f) else none := by
  unfold Stmt.definition at hd
  split at hd
  · cases hd; rfl
  · cases hd; rfl
  · exact absurd hd (by simp)

theorem assigned_of_definition_none (f : Env) {s : Stmt} (hd : s.definition = none) :
    assigned f s = none := by
  unfold assigned
  split
  · exact absurd hd (by simp [Stmt.definition])
  · exact absurd hd (by simp [Stmt.definition])
  · rfl

/-- What a statement assigns is the value of its expression, and goes to a tracked variable. -/
theorem definition_of_assigned {s : Stmt} (h : assigned before s = some (x, v)) :
    ∃ e, s.definition = some (x, e) ∧ x.isIntLike = true ∧ v = e.eval before := by
  cases hd : s.definition with
  | none => rw [assigned_of_definition_none _ hd] at h; exact absurd h (by simp)
  | some d =>
      obtain ⟨y, e⟩ := d
      rw [assigned_of_definition _ hd] at h
      split at h
      · rename_i hy
        cases h
        exact ⟨e, rfl, hy, rfl⟩
      · exact absurd h (by simp)

theorem get_transferStmt_assigned (h : s.bind (assigned before) = some (x, v)) :
    (transferStmt s before after).get x = v := by
  unfold transferStmt
  rw [h]
  exact Env.get_set_self _ _ _

/-- The other variables are taken over, but what was known of them is not forgotten. -/
theorem get_transferStmt_kept (h : ∀ v, s.bind (assigned before) ≠ some (y, v)) :
    (transferStmt s before after).get y =
      if before.get y = .unassigned then after.get y else before.get y := by
  unfold transferStmt
  split
  · rename_i x v hx
    have hne : y ≠ x := fun hq => h v (hq ▸ hx)
    rw [Env.get_set_ne _ _ hne, Env.get_copyFrom]
  · exact Env.get_copyFrom _ _ _

theorem get_transferStmt_congr {before' after' : Env} (hb : before.get = before'.get)
    (ha : after.get y = after'.get y) :
    (transferStmt s before after).get y = (transferStmt s before' after').get y := by
  have hs : s.bind (assigned before') = s.bind (assigned before) := by
    cases s with
    | none => rfl
    | some s => exact (assigned_congr hb s).symm
  by_cases h : ∃ v, s.bind (assigned before) = some (y, v)
  · obtain ⟨v, hv⟩ := h
    rw [get_transferStmt_assigned hv, get_transferStmt_assigned (hs.trans hv)]
  · have hk : ∀ v, s.bind (assigned before) ≠ some (y, v) := fun v hv => h ⟨v, hv⟩
    rw [get_transferStmt_kept hk, get_transferStmt_kept (hs ▸ hk), hb, ha]

theorem get_transferStmt_idem (s : Option Stmt) (before after : Env) (y : Var) :
    (transferStmt s before (transferStmt s before after)).get y =
      (transferStmt s before after).get y := by
  by_cases h : ∃ v, s.bind (assigned before) = some (y, v)
  · obtain ⟨v, hv⟩ := h
    rw [get_transferStmt_assigned hv, get_transferStmt_assigned hv]
  · have hk : ∀ v, s.bind (assigned before) ≠ some (y, v) := fun v hv => h ⟨v, hv⟩
    rw [get_transferStmt_kept hk, get_transferStmt_kept hk]
    split <;> rfl

/-- The transfer of a statement has nothing to add to the environment after it. -/
structure SettledBy (s : Option Stmt) (before after : Env) : Prop where
  /-- An assigned variable has its value afterwards. -/
  assigns {x : Var} {v : Value} : s.bind (assigned before) = some (x, v) → after.get x = v
  /-- The other variables keep what is known of them. -/
  keeps {y : Var} : (∀ v, s.bind (assigned before) ≠ some (y, v)) →
    before.get y ≠ .unassigned → after.get y = before.get y

theorem settledBy_of_transferStmt (h : (transferStmt s before after).get = after.get) :
    SettledBy s before after where
  assigns hx := by
    rw [← h]
    exact get_transferStmt_assigned hx
  keeps hy hk := by
    rw [← h]
    exact (get_transferStmt_kept hy).trans (if_neg hk)

theorem lawful (g : Cfg) : (problem g).Lawful Env.get where
  same_iff _ _ := Env.same_iff
  join_congr {f f' g g'} hf hg := by
    funext y
    rw [problem, Env.get_joinWith, Env.get_joinWith, hf, hg]
  along_congr {n e f f'} he hf := by
    obtain ⟨q, _, rfl⟩ := List.mem_map.mp he
    exact hf
  transfer_congr n {f f' g g'} hf hg := by
    funext y
    exact get_transferStmt_congr hf (congrFun hg y)
  transfer_idem n f g := funext (get_transferStmt_idem _ f g)
  mem_users {n e} he := by
    obtain ⟨q, hq, rfl⟩ := List.mem_map.mp he
    exact Cfg.mem_preds_iff.mp hq

theorem closed (hb : b.Linked) : (problem (Cfg.ofBody b)).Closed (visited (Cfg.ofBody b)) where
  mem_nodes h := (List.mem_filter.mp h).1
  mem_users {n m} _ h := by
    obtain ⟨hm, hne⟩ := Cfg.Linked.mem_succs hb h
    exact List.mem_filter.mpr ⟨hm, by simpa using hne⟩

theorem mem_visited : n ∈ visited g ↔ n ∈ g.nodes ∧ n ≠ .entry := by
  simp [visited]

/-! ## What flows into a node -/

/-- The join of the environments after the predecessors of a node. -/
def joined (g : Cfg) (after : Point → Env) (n : Point) : Env :=
  (g.preds n).foldl (fun acc q => acc.joinWith (after q)) .empty

/-- **The join is the least environment above those of the predecessors.** -/
theorem joined_le_iff {after : Point → Env} {m : Var → Value} :
    (joined g after n).get ≤ m ↔ ∀ q ∈ g.preds n, (after q).get ≤ m := by
  have hjoined : joined g after n = ((g.preds n).map after).foldl Env.joinWith .empty :=
    List.foldl_map.symm
  have hempty : Env.empty.get ≤ m := fun y => Value.unassigned_le _
  rw [hjoined, Env.foldl_joinWith_le_iff, and_iff_right hempty]
  exact List.forall_mem_map

/-- A visit merges exactly that. -/
theorem merged_eq_joined : (problem g).merged facts n = joined g ((problem g).farOf facts) n :=
  List.foldl_map

theorem merged_le_iff {m : Var → Value} :
    ((problem g).merged facts n).get ≤ m ↔
      ∀ q ∈ g.preds n, ((problem g).farOf facts q).get ≤ m := by
  rw [merged_eq_joined]
  exact joined_le_iff

theorem le_merged (h : q ∈ g.preds n) :
    ((problem g).farOf facts q).get ≤ ((problem g).merged facts n).get :=
  merged_le_iff.mp le_rfl q h

/-! ## Boundary -/

/-- Behind the entry nothing is known but that the tracked parameters may be anything. -/
theorem get_boundary (b : Body) (x : Var) :
    (boundary b).get x = if x ∈ b.params ∧ x.isIntLike = true then .nac else .unassigned := by
  -- generalised over the environment that the parameters are added to
  have key : ∀ (ps : List Var) (f : Env),
      (ps.foldl (fun f x => if x.isIntLike then f.set x .nac else f) f).get x =
        if x ∈ ps ∧ x.isIntLike = true then .nac else f.get x := by
    intro ps
    induction ps with
    | nil => intro f; simp
    | cons p ps ih =>
        intro f
        rw [List.foldl_cons, ih]
        by_cases hx : x ∈ ps ∧ x.isIntLike = true
        · simp [hx]
        · by_cases hp : p.isIntLike = true
          · rw [if_neg hx, if_pos hp, Env.get_set]
            grind
          · rw [if_neg hx, if_neg hp]
            grind
  exact key b.params Env.empty

/-! ## Variables of which something is known -/

/-- The int-like variables that a body takes or writes. -/
def trackedVars (b : Body) : List Var :=
  (b.params ++ b.stmts.filterMap Stmt.defined).filter Var.isIntLike

/-- Anything may be known of those variables, and nothing of the others. -/
def knowable (b : Body) (x : Var) : Value :=
  if x ∈ trackedVars b then .nac else .unassigned

theorem le_knowable {m : Var → Value} :
    m ≤ knowable b ↔ ∀ x, x ∉ trackedVars b → m x = .unassigned := by
  constructor
  · intro h x hx
    have := h x
    rw [knowable, if_neg hx] at this
    exact Value.eq_of_le_unassigned this
  · intro h x
    rw [knowable]
    split
    · exact Value.le_nac _
    · rename_i hx; rw [h x hx]

theorem isIntLike_of_mem_trackedVars (h : x ∈ trackedVars b) : x.isIntLike = true :=
  (List.mem_filter.mp h).2

theorem eq_unassigned_of_le_knowable {m : Var → Value} (h : m ≤ knowable b)
    (hx : ¬ x.isIntLike = true) : m x = .unassigned :=
  le_knowable.mp h x fun hmem => hx (isIntLike_of_mem_trackedVars hmem)

/-- What a statement assigns goes to a tracked variable. -/
theorem mem_trackedVars_of_assigned {s : Stmt} (hs : s ∈ b.stmts)
    (h : assigned before s = some (x, v)) : x ∈ trackedVars b := by
  obtain ⟨e, hd, hx, _⟩ := definition_of_assigned h
  have hdefined := Stmt.defined_of_definition hd
  exact List.mem_filter.mpr
    ⟨List.mem_append_right _ (List.mem_filterMap.mpr ⟨s, hs, hdefined⟩), hx⟩

theorem boundary_le_knowable (b : Body) : (boundary b).get ≤ knowable b := by
  rw [le_knowable]
  intro x hx
  rw [get_boundary, if_neg]
  rintro ⟨hp, hint⟩
  exact hx (List.mem_filter.mpr ⟨List.mem_append_left _ hp, hint⟩)

theorem transferStmt_le_knowable (hs : ∀ s', s = some s' → s' ∈ b.stmts)
    (hb : before.get ≤ knowable b) (ha : after.get ≤ knowable b) :
    (transferStmt s before after).get ≤ knowable b := by
  rw [le_knowable] at *
  intro x hx
  have hk : ∀ v, s.bind (assigned before) ≠ some (x, v) := by
    intro v hv
    obtain ⟨s', hs', hv⟩ := Option.bind_eq_some_iff.mp hv
    exact hx (mem_trackedVars_of_assigned (hs s' hs') hv)
  rw [get_transferStmt_kept hk, if_pos (hb x hx), ha x hx]

theorem mem_stmts_of_at? {s : Stmt} (h : b.at? n = some s) : s ∈ b.stmts := by
  obtain ⟨i, _, hi⟩ := Body.at?_eq_some.mp h
  exact List.mem_of_getElem? hi

/-- Nothing is ever known of a variable that is not tracked. -/
theorem far_le_knowable (h : (problem g).Reached (visited g) facts) (n : Point) :
    ((problem g).farOf facts n).get ≤ knowable g.body := by
  refine Problem.far_of_reached (fun n hn => (mem_visited.mp hn).1)
    (P := fun _ f => f.get ≤ knowable g.body) ?_ ?_ ?_ h n
  · exact fun _ x => Value.unassigned_le _
  · intro n
    change (if n = .entry then boundary g.body else .empty).get ≤ knowable g.body
    split
    · exact boundary_le_knowable _
    · exact fun x => Value.unassigned_le _
  · intro facts n _ hfar
    exact transferStmt_le_knowable (fun _ hs => mem_stmts_of_at? hs)
      (merged_le_iff.mpr fun q _ => hfar q) (hfar n)

/-! ## Solutions -/

/-- The environment before a node. -/
def beforeAt (s : Solution Point Env) (n : Point) : Env :=
  (s.before.get? n).getD .empty

/-- The environment after a node. -/
def afterAt (s : Solution Point Env) (n : Point) : Env :=
  (s.after.get? n).getD .empty

/-- A solver returns a solution, after however many visits. -/
def Returns (g : Cfg) (solver : SolverKind) (s : Solution Point Env) : Prop :=
  ∃ fuel, solveWithin g solver fuel = some s

theorem returns_of_solveWith [Nesting] {solver : SolverKind} {s : Solution Point Env}
    (h : solveWith g solver = .ok s) : Returns g solver s := by
  unfold solveWith at h
  dsimp only at h
  split at h
  · exact absurd h (by simp [bind, Except.bind])
  cases hs : solveWithin g solver visitLimit with
  | none => rw [hs] at h; exact absurd h (by simp [finished, bind, Except.bind])
  | some s' =>
      rw [hs] at h
      simp only [finished, bind, Except.bind] at h
      split at h
      · exact absurd h (by simp)
      · cases h
        exact ⟨visitLimit, hs⟩

/-- Whatever is asked for by the name of a solver comes from one of the solvers. -/
theorem returns_of_solve [Nesting] {name : Option String} {s : Solution Point Env}
    (h : solve g name = .ok s) : ∃ solver, Returns g solver s := by
  unfold solve at h
  split at h
  · exact ⟨_, returns_of_solveWith h⟩
  · split at h
    · exact ⟨_, returns_of_solveWith h⟩
    · exact absurd h (by simp)

/-- What the environments before and after the nodes of a graph satisfy once they are solved. -/
structure Stable (g : Cfg) (before after : Point → Env) : Prop where
  /-- Behind the entry is the boundary. -/
  entry : (after .entry).get = (boundary g.body).get
  /-- What is known after a node is taken over by its successors. -/
  flows {p q : Point} : q ∈ g.nodes → q ≠ .entry → q ∈ g.succs p → (after p).get ≤ (before q).get
  /-- An assigned variable has its value afterwards. -/
  assigns {n : Point} {x : Var} {v : Value} : n ∈ g.nodes → n ≠ .entry →
    (g.body.at? n).bind (assigned (before n)) = some (x, v) → (after n).get x = v
  /-- The other variables keep what is known of them. -/
  keeps {n : Point} {y : Var} : n ∈ g.nodes → n ≠ .entry →
    (∀ v, (g.body.at? n).bind (assigned (before n)) ≠ some (y, v)) →
    (before n).get y ≠ .unassigned → (after n).get y = (before n).get y
  /-- Only tracked variables are known. -/
  tracked {n : Point} : n ∈ g.nodes → n ≠ .entry → (before n).get ≤ knowable g.body

theorem Stable.settledBy {before after : Point → Env} (h : Stable g before after) (hn : n ∈ g.nodes)
    (hne : n ≠ .entry) : SettledBy (g.body.at? n) (before n) (after n) :=
  ⟨h.assigns hn hne, h.keeps hn hne⟩

theorem stable_of_solved (h : (problem g).Solved Env.get (visited g) facts) :
    Stable g ((problem g).nearOf facts) ((problem g).farOf facts) where
  entry := by
    have hn : Point.entry ∈ (problem g).nodes := g.body.entry_mem_points
    rw [Problem.farOf_reached_of_notMem h.reached (by simp [mem_visited]) hn]
    rfl
  flows hq hne hs := by
    rw [(h.settled (mem_visited.mpr ⟨hq, hne⟩)).near]
    exact le_merged (Cfg.mem_preds_iff.mpr hs)
  assigns hn hne :=
    (settledBy_of_transferStmt (h.settled (mem_visited.mpr ⟨hn, hne⟩)).far).assigns
  keeps hn hne :=
    (settledBy_of_transferStmt (h.settled (mem_visited.mpr ⟨hn, hne⟩)).far).keeps
  tracked hn hne := by
    rw [(h.settled (mem_visited.mpr ⟨hn, hne⟩)).near]
    exact merged_le_iff.mpr fun q _ => far_le_knowable h.reached q

theorem solved_of_returns (hb : b.Linked) {solver : SolverKind} {s : Solution Point Env}
    (h : Returns (.ofBody b) solver s) :
    ∃ facts, (problem (.ofBody b)).Solved Env.get (visited (.ofBody b)) facts ∧
      facts.forward = s := by
  obtain ⟨fuel, h⟩ := h
  -- that the operations of the problem are lawful is all that either solver needs
  cases solver with
  | worklist =>
      obtain ⟨facts, hf, rfl⟩ := Option.map_eq_some_iff.mp h
      exact ⟨facts, Problem.solved_solveWorklist (lawful _) (closed hb) hf, rfl⟩
  | iterative =>
      obtain ⟨facts, hf, rfl⟩ := Option.map_eq_some_iff.mp h
      exact ⟨facts, Problem.solved_solveSweeping (lawful _) (closed hb) hf, rfl⟩

/-- **What a solver returns satisfies the equations.** -/
theorem stable_of_returns (hb : b.Linked) {solver : SolverKind} {s : Solution Point Env}
    (h : Returns (.ofBody b) solver s) : Stable (.ofBody b) (beforeAt s) (afterAt s) := by
  obtain ⟨facts, hf, rfl⟩ := solved_of_returns hb h
  exact stable_of_solved hf

theorem get?_before_of_returns (hb : b.Linked) {solver : SolverKind} {s : Solution Point Env}
    (h : Returns (.ofBody b) solver s) (hn : n ∈ b.points) :
    s.before.get? n = some (beforeAt s n) := by
  obtain ⟨facts, hf, rfl⟩ := solved_of_returns hb h
  exact Problem.get?_near (p := problem (.ofBody b)) (Problem.covers_reached hf.reached) hn

end Constants

end TacFlow
