import Mathlib.Logic.Relation
import TacFlow.Proofs.Constant.Equations
import TacFlow.Proofs.Flow.Ascent

/-!
# Where facts only rise

The far facts of constant propagation rise from visit to visit, except behind a *hazard*: an
assignment whose quotient can fall when its divisor turns out to be zero. At a node that no hazard
leads to, the far fact stays below what the clean flow of the node makes of what flows in, and so a
visit replaces it by that flow. In particular no former binding survives there.

`Ascending` is that invariant. It needs two facts about what can be known at all: nothing of
untracked variables, and zero only of variables that are assigned something that may be zero.
-/

namespace TacFlow

/-! ## Hazards -/

/-- Whether a statement may give a variable the known value zero. -/
def Stmt.mayZero (z : Var) : Stmt → Bool
  | .assign (.var x) (.lit n) => x = z && wrap32 n = 0
  | .assign (.var x) value => x = z && value.isArithmetic
  | _ => false

/-- Whether a statement divides one tracked variable by another one that may be zero. -/
def Body.isHazard (b : Body) : Stmt → Bool
  | .assign (.var x) (.binary op (.var y) (.var z)) =>
    op.isDivision && y ≠ z && x.isIntLike && y.isIntLike && z.isIntLike &&
      b.stmts.any (Stmt.mayZero z)
  | _ => false

/-- Whether a node is such a statement. -/
def Body.HazardAt (b : Body) (n : Point) : Prop :=
  ∃ s, b.at? n = some s ∧ b.isHazard s = true

/-- No hazard leads to the node. -/
def Body.Calm (b : Body) (n : Point) : Prop :=
  ∀ h, b.HazardAt h → ¬ Relation.ReflTransGen (Cfg.ofBody b).Leads h n

namespace Constants

variable {b : Body} {facts facts' : Facts Point Env} {f f' before after : Env} {n m q : Point}
  {s : Option Stmt} {x y : Var} {v : Value}

theorem calm_of_succ (hm : b.Calm m) (hs : m ∈ (Cfg.ofBody b).succs n) : b.Calm n :=
  fun h hh hn => hm h hh (hn.tail hs)

/-! ## The clean flow -/

/-- What is known after a statement by what is known before it, and by nothing else. -/
def flow (s : Option Stmt) (before : Env) (x : Var) : Value :=
  match s.bind (assigned before) with
  | some (y, v) => if x = y then v else before.get x
  | none => before.get x

theorem flow_assigned (h : s.bind (assigned before) = some (x, v)) : flow s before x = v := by
  simp [flow, h]

theorem flow_kept (h : ∀ v, s.bind (assigned before) ≠ some (x, v)) :
    flow s before x = before.get x := by
  unfold flow
  split
  · rename_i y v hy
    have hne : x ≠ y := fun hq => h v (hq ▸ hy)
    rw [if_neg hne]
  · rfl

/-- Over a fact that lies below the flow, a transfer is the flow. -/
theorem get_transferStmt_of_le (h : after.get ≤ flow s before) :
    (transferStmt s before after).get = flow s before := by
  funext y
  by_cases hy : ∃ v, s.bind (assigned before) = some (y, v)
  · obtain ⟨v, hv⟩ := hy
    rw [get_transferStmt_assigned hv, flow_assigned hv]
  · have hk : ∀ v, s.bind (assigned before) ≠ some (y, v) := fun v hv => hy ⟨v, hv⟩
    have hle := h y
    rw [flow_kept hk] at hle ⊢
    rw [get_transferStmt_kept hk]
    split
    · rename_i hu
      rw [hu] at hle ⊢
      exact Value.eq_of_le_unassigned hle
    · rfl

/-- No quotient falls between two environments. -/
def Steady (s : Option Stmt) (f f' : Env) : Prop :=
  ∀ x op left right, s = some (.assign (.var x) (.binary op left right)) → x.isIntLike = true →
    ¬ Value.Hazard op (left.eval f) (right.eval f) (right.eval f')

theorem eval_atom_mono {e : Expr} (he : e.isAtom = true) (h : f.get ≤ f'.get) :
    e.eval f ≤ e.eval f' := by
  cases e with
  | lit n => exact le_rfl
  | var x => exact h x
  | _ => exact absurd he (by simp [Expr.isAtom])

/-- **Evaluation of a single operation rises with the environment**, unless a quotient falls. -/
theorem eval_mono {e : Expr} (he : e.isFlat = true) (h : f.get ≤ f'.get)
    (hsteady : ∀ op left right, e = .binary op left right →
      ¬ Value.Hazard op (left.eval f) (right.eval f) (right.eval f')) :
    e.eval f ≤ e.eval f' := by
  cases e with
  | lit n => exact le_rfl
  | var x => exact h x
  | binary op left right =>
      simp only [Expr.isFlat, Bool.and_eq_true] at he
      exact Value.combine_mono (eval_atom_mono he.1 h) (eval_atom_mono he.2 h)
        (hsteady op left right rfl)
  | _ => exact le_rfl

/-- **The flow rises with what flows in**, unless a quotient falls. -/
theorem flow_mono (hflat : ∀ s', s = some s' → s'.isFlat = true) (h : f.get ≤ f'.get)
    (hsteady : Steady s f f') : flow s f ≤ flow s f' := by
  intro y
  cases s with
  | none => exact h y
  | some s =>
      cases hd : s.definition with
      | none =>
          simp only [flow, Option.bind_some, assigned_of_definition_none _ hd]
          exact h y
      | some d =>
          obtain ⟨x, e⟩ := d
          simp only [flow, Option.bind_some, assigned_of_definition _ hd]
          by_cases hx : x.isIntLike = true
          · rw [if_pos hx, if_pos hx]
            by_cases hy : y = x
            · simp only [if_pos hy]
              rcases Stmt.isFlat_or_call (hflat s rfl) hd with he | ⟨call, rfl⟩
              · refine eval_mono he h ?_
                rintro op left right rfl
                refine hsteady x op left right ?_ hx
                unfold Stmt.definition at hd
                split at hd
                · cases hd; rfl
                · exact absurd (congrArg Prod.snd (Option.some.inj hd)) (by simp [Call.toExpr])
                · exact absurd hd (by simp)
              · exact le_rfl
            · simp only [if_neg hy]
              exact h y
          · rw [if_neg hx, if_neg hx]
            exact h y

/-! ## What can be zero -/

/-- Zero is known of a variable only where some statement may give it that value. -/
def ZerosFrom (b : Body) (m : Var → Value) : Prop :=
  ∀ z, m z = .const 0 → b.stmts.any (Stmt.mayZero z) = true

theorem mayZero_of_definition {s : Stmt} {e : Expr} (hd : s.definition = some (x, e))
    (he : e.eval before = .const 0) : s.mayZero x = true := by
  unfold Stmt.definition at hd
  split at hd
  · cases hd
    cases e with
    | lit n => simpa [Stmt.mayZero, Expr.eval] using he
    | var y => simp [Stmt.mayZero, Expr.isArithmetic]
    | binary op left right => simp [Stmt.mayZero, Expr.isArithmetic]
    | _ => exact absurd he (by simp [Expr.eval])
  · cases hd
    exact absurd he (by simp [Call.toExpr, Expr.eval])
  · exact absurd hd (by simp)

theorem zerosFrom_merged (h : ∀ q, ZerosFrom b ((problem (.ofBody b)).farOf facts q).get) :
    ZerosFrom b ((problem (.ofBody b)).merged facts n).get := by
  intro z hz
  by_contra hnone
  -- then nothing flows in for the variable, so nothing is known of it
  have hle : ((problem (.ofBody b)).merged facts n).get ≤
      fun y => if y = z then .unassigned else .nac := by
    rw [merged_le_iff]
    intro q hq y
    dsimp only
    by_cases hy : y = z
    · subst hy
      have hfar : ((problem (.ofBody b)).farOf facts q).get y ≤
          ((problem (.ofBody b)).merged facts n).get y := le_merged hq y
      rw [hz] at hfar
      rw [if_pos rfl]
      rcases Value.le_iff.mp hfar with hu | hu | hu
      · exact hu.le
      · exact absurd hu (by simp)
      · exact absurd (h q y hu) hnone
    · rw [if_neg hy]; exact Value.le_nac _
  have hzero := hle z
  dsimp only at hzero
  rw [hz, if_pos rfl] at hzero
  exact absurd (Value.eq_of_le_unassigned hzero) (by simp)

theorem zerosFrom_transferStmt (hs : ∀ s', s = some s' → s' ∈ b.stmts)
    (hb : ZerosFrom b before.get) (ha : ZerosFrom b after.get) :
    ZerosFrom b (transferStmt s before after).get := by
  intro z hz
  by_cases hy : ∃ v, s.bind (assigned before) = some (z, v)
  · obtain ⟨v, hv⟩ := hy
    rw [get_transferStmt_assigned hv] at hz
    obtain ⟨s', rfl, hs'⟩ := Option.bind_eq_some_iff.mp hv
    obtain ⟨e, hd, _, he⟩ := definition_of_assigned hs'
    exact List.any_eq_true.mpr ⟨s', hs s' rfl, mayZero_of_definition hd (he ▸ hz)⟩
  · have hk : ∀ v, s.bind (assigned before) ≠ some (z, v) := fun v hv => hy ⟨v, hv⟩
    rw [get_transferStmt_kept hk] at hz
    split at hz
    · exact ha z hz
    · exact hb z hz

theorem far_zerosFrom (h : (problem (.ofBody b)).Reached (visited (.ofBody b)) facts) (n : Point) :
    ZerosFrom b ((problem (.ofBody b)).farOf facts n).get := by
  refine Problem.far_of_reached (fun n hn => (mem_visited.mp hn).1)
    (P := fun _ f => ZerosFrom b f.get) ?_ ?_ ?_ h n
  · intro n z hz
    exact absurd hz (by simp [problem])
  · intro n z hz
    change (if n = .entry then boundary b else .empty).get z = .const 0 at hz
    split at hz
    · rw [get_boundary] at hz
      split at hz <;> exact absurd hz (by simp)
    · exact absurd hz (by simp)
  · intro facts n _ hfar
    exact zerosFrom_transferStmt (fun _ hs => mem_stmts_of_at? hs) (zerosFrom_merged hfar) (hfar n)

/-- Between environments that can be reached, a quotient falls at hazards only. -/
theorem steady_of_not_isHazard (hflat : ∀ s ∈ b.stmts, s.isFlat = true)
    (hhazard : ∀ s', b.at? n = some s' → b.isHazard s' = false) (hf : f.get ≤ knowable b)
    (hf' : f'.get ≤ knowable b) (hz : ZerosFrom b f'.get) : Steady (b.at? n) f f' := by
  rintro x op left right hs hx ⟨hop, hl, hr, hr'⟩
  -- the divisor is a variable that may be zero and the dividend another one: a hazard after all
  have hfl := hflat _ (mem_stmts_of_at? hs)
  simp only [Stmt.isFlat, Expr.isFlat, Bool.and_eq_true] at hfl
  have tracked : ∀ {f : Env} {y : Var}, f.get ≤ knowable b → f.get y ≠ .unassigned →
      y.isIntLike = true := by
    intro f y hle hne
    by_contra hy
    exact hne (eq_unassigned_of_le_knowable hle hy)
  cases left with
  | var y =>
      cases right with
      | var z =>
          have hl : f.get y = .nac := hl
          have hr : f.get z = .unassigned := hr
          have hr' : f'.get z = .const 0 := hr'
          have hyz : y ≠ z := by
            rintro rfl
            rw [hl] at hr
            exact absurd hr (by simp)
          have hy := tracked hf (y := y) (by rw [hl]; simp)
          have hzint := tracked hf' (y := z) (by rw [hr']; simp)
          have hfalse := hhazard _ hs
          simp only [Body.isHazard, hop, hx, hy, hzint, hz z hr'] at hfalse
          simp [hyz] at hfalse
      | lit k => exact absurd hr (by simp [Expr.eval])
      | _ => exact absurd hfl.2 (by simp [Expr.isAtom])
  | lit k => exact absurd hl (by simp [Expr.eval])
  | _ => exact absurd hfl.1 (by simp [Expr.isAtom])

/-! ## The invariant -/

/-- The facts that a run of a solver on the body passes through. -/
abbrev Reaches (b : Body) (facts : Facts Point Env) : Prop :=
  (problem (.ofBody b)).Reached (visited (.ofBody b)) facts

/-- At calm nodes the far fact lies below the flow of what flows in. -/
def Ascending (b : Body) (facts : Facts Point Env) : Prop :=
  ∀ n ∈ visited (.ofBody b), b.Calm n →
    ((problem (.ofBody b)).farOf facts n).get ≤
      flow (b.at? n) ((problem (.ofBody b)).merged facts n)

theorem mem_nodes_of_mem_visited {g : Cfg} (hn : n ∈ visited g) : n ∈ (problem g).nodes :=
  (mem_visited.mp hn).1

section

variable (hflat : ∀ s ∈ b.stmts, s.isFlat = true)

include hflat

/-- **The calm nodes ascend**: joining respects the order, a transfer over a fact below the flow is the
flow, and between facts that are reached no quotient of a calm node falls. -/
theorem ascends : (problem (.ofBody b)).Ascends Env.get (visited (.ofBody b)) b.Calm
    (fun n => flow (b.at? n)) where
  mem_nodes := mem_nodes_of_mem_visited
  inflow_calm {n e} hn he := by
    obtain ⟨q, hq, rfl⟩ := List.mem_map.mp he
    exact calm_of_succ hn (Cfg.mem_preds_iff.mp hq)
  join_mono := Env.joinWith_mono
  along_mono {n e f f'} he h := by
    obtain ⟨q, _, rfl⟩ := List.mem_map.mp he
    exact h
  flow_mono {facts facts' n} hn hr hr' h := by
    have hle : ∀ {facts}, Reaches b facts →
        ((problem (.ofBody b)).merged facts n).get ≤ knowable b :=
      fun hr => merged_le_iff.mpr fun q _ => far_le_knowable hr q
    refine flow_mono (fun s hs => hflat s (mem_stmts_of_at? hs)) h ?_
    refine steady_of_not_isHazard hflat ?_ (hle hr) (hle hr') (zerosFrom_merged (far_zerosFrom hr'))
    intro s hs
    rw [Bool.eq_false_iff]
    exact fun hhazard => hn n ⟨s, hs, hhazard⟩ .refl
  transfer_eq h := get_transferStmt_of_le h
  start_le {n} hn _ := by
    have hne := (mem_visited.mp hn).2
    intro y
    change (if n = .entry then boundary b else .empty).get y ≤ _
    rw [if_neg hne]
    exact Value.unassigned_le _

theorem ascending_of_reaches (hr : Reaches b facts) : Ascending b facts :=
  (ascends hflat).ascending_of_reached hr

end

end Constants

end TacFlow
