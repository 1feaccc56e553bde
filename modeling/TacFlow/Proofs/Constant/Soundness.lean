import TacFlow.Proofs.Code.Execution
import TacFlow.Proofs.Constant.Equations
import TacFlow.Proofs.Program.Parsed

/-!
# Soundness of constant propagation

At every point that a run arrives at, the environment before the point describes the run: a tracked
variable that has been assigned is `nac` there or the constant that it holds.

The transfers are not monotone, so this is not drawn from a monotone framework but from the
equations that a solution satisfies. They carry `Describes` over one step, and from the entry to
every point of a run of any length.

Variables that are not tracked are invisible to the analysis, so what is assigned to a tracked
variable must not be computed from them. `isIntClosed` says so.
-/

namespace TacFlow

/-- Whether a tracked variable that gets a variable or the result of an operator gets it from
tracked variables. -/
def Stmt.isIntClosed : Stmt → Bool
  | .assign (.var x) value =>
    !x.isIntLike || !value.isArithmetic || value.uses.all Var.isIntLike
  | _ => true

/-- Whether that holds of all statements. -/
def Body.isIntClosed (b : Body) : Bool :=
  b.stmts.all Stmt.isIntClosed

/-- A value of the lattice allows for a word. -/
def Value.Admits (a : Value) (v : Word) : Prop :=
  a = .nac ∨ a = .const v.toInt

/-- An environment allows for the values of the tracked variables that have been assigned. -/
def Env.Describes (f : Env) (σ : Store) : Prop :=
  ∀ x v, x.isIntLike = true → σ x = some v → (f.get x).Admits v

theorem Value.Admits.mono {a a' : Value} {v : Word} (h : a.Admits v) (hle : a ≤ a') :
    a'.Admits v := by
  rcases h with rfl | rfl
  · exact Or.inl (eq_of_nac_le hle)
  · rcases le_iff.mp hle with hq | hq | hq
    · exact absurd hq (by simp)
    · exact Or.inl hq
    · exact Or.inr hq.symm

theorem Env.Describes.mono {f f' : Env} {σ : Store} (h : f.Describes σ) (hle : f.get ≤ f'.get) :
    f'.Describes σ :=
  fun x v hx hv => (h x v hx hv).mono (hle x)

/-! ## Evaluation -/

/-- An operator on values allows for what the machine computes. -/
theorem Value.admits_combine {op : BinOp} {a a' : Value} {u v r : Word} (hu : a.Admits u)
    (hv : a'.Admits v) (h : op.onWords u v = some r) : (combine op a a').Admits r := by
  -- a division by the constant zero has no result
  have hsafe : ¬ (op.isDivision = true ∧ a' = const 0) := by
    rintro ⟨hop, rfl⟩
    have hzero : v = 0#32 := by
      apply BitVec.eq_of_toInt_eq
      simpa using (hv.resolve_left (by simp)).symm
    rw [BinOp.onWords_eq_none.mpr ⟨hop, hzero⟩] at h
    exact absurd h (by simp)
  rcases hu with rfl | rfl
  · exact Or.inl (combine_nac_left hsafe)
  · rcases hv with rfl | rfl
    · exact Or.inl (combine_nac_right _ _)
    · rw [combine_const hsafe, wrap32_apply h]
      exact Or.inr rfl

/-- **Evaluation in an environment allows for the value of an expression.** -/
theorem Expr.admits_eval {f : Env} {w : World} {σ : Store} (hf : f.Describes σ) (e : Expr)
    (he : e.isArithmetic = true → ∀ x ∈ e.uses, x.isIntLike = true) {t t' : Trace} {v : Word}
    (h : e.run w σ t = .done v t') : (e.eval f).Admits v := by
  induction e using Expr.eval.induct generalizing t t' v with
  | case1 n =>
      cases h
      exact Or.inr (congrArg Value.const (wrap32_eq n))
  | case2 x =>
      have hx := he rfl x (by simp [uses])
      simp only [run, Store.read] at h
      split at h
      · rename_i u hu
        cases h
        exact hf x v hx hu
      · exact absurd h (by simp)
  | case3 op left right ihl ihr =>
      have hall := he rfl
      simp only [uses, List.mem_append] at hall
      obtain ⟨u, t₁, hl, h⟩ := Run.bind_eq_done.mp h
      obtain ⟨u', t₂, hr, h⟩ := Run.bind_eq_done.mp h
      split at h
      · rename_i r hop
        cases h
        exact Value.admits_combine (ihl (fun _ x hx => hall x (Or.inl hx)) hl)
          (ihr (fun _ x hx => hall x (Or.inr hx)) hr) hop
      · exact absurd h (by simp)
  | case4 e hlit hvar hbin =>
      -- nothing is claimed of what the world answers
      refine Or.inl ?_
      cases e <;> simp_all [eval]

/-- An expression that evaluates to a constant has this value, whatever it reads: a variable that is
known is tracked. -/
theorem Expr.toInt_of_eval_const {f : Env} {w : World} {σ : Store} (hf : f.Describes σ)
    {b : Body} (ht : f.get ≤ Constants.knowable b) (e : Expr) {r : Int} (he : e.eval f = .const r)
    {t t' : Trace} {v : Word} (h : e.run w σ t = .done v t') : v.toInt = r := by
  induction e using Expr.eval.induct generalizing t t' v r with
  | case1 n =>
      cases h
      rw [eval] at he
      rw [← Value.const.inj he, wrap32_eq]
  | case2 x =>
      have hx : x.isIntLike = true := by
        by_contra hx
        rw [eval, Constants.eq_unassigned_of_le_knowable ht hx] at he
        exact absurd he (by simp)
      simp only [run, Store.read] at h
      split at h
      · rename_i u hu
        cases h
        rcases hf x v hx hu with hq | hq
        · rw [eval, hq] at he
          exact absurd he (by simp)
        · rw [eval, hq] at he
          exact Value.const.inj he
      · exact absurd h (by simp)
  | case3 op left right ihl ihr =>
      obtain ⟨m, n, hm, hn, _, rfl⟩ := Value.combine_eq_const he
      obtain ⟨u, t₁, hl, h⟩ := Run.bind_eq_done.mp h
      obtain ⟨u', t₂, hr, h⟩ := Run.bind_eq_done.mp h
      split at h
      · rename_i v' hop
        cases h
        rw [← ihl hm hl, ← ihr hn hr, wrap32_apply hop]
      · exact absurd h (by simp)
  | case4 e hlit hvar hbin =>
      have hnac : e.eval f = .nac := by cases e <;> simp_all [eval]
      rw [hnac] at he
      exact absurd he (by simp)

namespace Constants

/-! ## Steps -/

variable {g : Cfg} {b : Body} {before after : Point → Env} {w : World} {args : Var → Word}
  {c c' : Config} {t t' : Trace} {x : Var} {v : Word}

/-- A defining expression of a tracked variable reads tracked variables only. -/
theorem uses_of_isIntClosed (hb : b.isIntClosed = true) {s : Stmt} (hs : s ∈ b.stmts) {e : Expr}
    (hd : s.definition = some (x, e)) (hx : x.isIntLike = true) (he : e.isArithmetic = true) :
    ∀ y ∈ e.uses, y.isIntLike = true := by
  have hclosed := List.all_eq_true.mp hb s hs
  unfold Stmt.definition at hd
  split at hd
  · cases hd
    simpa [Stmt.isIntClosed, hx, he] using hclosed
  · cases hd
    exact absurd he (by simp [Call.toExpr, Expr.isArithmetic])
  · exact absurd hd (by simp)

/-- A variable that is not assigned keeps its value, and what is known of it. -/
theorem SettledBy.admits_kept {s : Option Stmt} {f f' : Env} {σ : Store} (hf : SettledBy s f f')
    (hσ : f.Describes σ) (hna : ∀ u, s.bind (assigned f) ≠ some (x, u)) (hx : x.isIntLike = true)
    (hv : σ x = some v) : (f'.get x).Admits v := by
  have hadm := hσ x v hx hv
  have hne : f.get x ≠ .unassigned := by
    rintro hq
    rw [hq] at hadm
    exact absurd hadm (by simp [Value.Admits])
  rw [hf.keeps hna hne]
  exact hadm

/-- Where nothing is assigned, the same variables are described before and afterwards. -/
theorem SettledBy.describes_of_none {s : Option Stmt} {f f' : Env} {σ : Store}
    (hf : SettledBy s f f') (hs : s.bind (assigned f) = none) (hσ : f.Describes σ) :
    f'.Describes σ := by
  intro y v hy hv
  exact hf.admits_kept hσ (fun u => by simp [hs]) hy hv

/-- **A statement leads from variables that are described before it to variables that are
described after it.** -/
theorem SettledBy.describes_of_run {s : Stmt} {f f' : Env} (hf : SettledBy (some s) f f')
    (hb : b.isIntClosed = true) (hs : s ∈ b.stmts) {i : Nat} {σ : Store} (hσ : f.Describes σ)
    (h : s.run w b i σ t = .done c t') : f'.Describes c.store := by
  cases hd : s.definition with
  | none =>
      rw [Stmt.store_of_run hd h]
      exact hf.describes_of_none (assigned_of_definition_none f hd) hσ
  | some d =>
      obtain ⟨x, e⟩ := d
      obtain ⟨u, he, rfl⟩ := Stmt.run_of_definition hd h
      have hassigned := assigned_of_definition f hd
      intro y v hy hv
      by_cases hyx : y = x
      · subst hyx
        have hu : u = v := by simpa [Store.put] using hv
        rw [if_pos hy] at hassigned
        rw [hf.assigns hassigned, ← hu]
        exact Expr.admits_eval hσ e (uses_of_isIntClosed hb hs hd hy) he
      · have hna : ∀ u, assigned f s ≠ some (y, u) := by
          intro u hq
          rw [hassigned] at hq
          split at hq
          · exact hyx (Prod.ext_iff.mp (Option.some.inj hq)).1.symm
          · exact absurd hq (by simp)
        have hv' : σ y = some v := by simpa [Store.put, hyx] using hv
        exact hf.admits_kept hσ hna hy hv'

/-- The parameters are described by the boundary. -/
theorem describes_boundary (b : Body) (args : Var → Word) :
    (boundary b).Describes (b.start args).store := by
  intro x v hx hv
  have hp : x ∈ b.params := by
    by_contra hp
    simp [Body.start, hp] at hv
  refine Or.inl ?_
  rw [get_boundary, if_pos ⟨hp, hx⟩]

/-! ## Runs -/

/-- The environments before the points describe a run that stands at one of them. -/
structure Described (b : Body) (args : Var → Word) (before : Point → Env) (c : Config) : Prop where
  /-- At the entry only the parameters are assigned. -/
  entry : c.point = .entry → c.store = (b.start args).store
  /-- Everywhere else the environment before the point describes the variables. -/
  inside : c.point ≠ .entry → (before c.point).Describes c.store

/-- A step leads to variables that the environment after the point describes. -/
theorem describes_after_step (hst : Stable (.ofBody b) before after) (hb : b.isIntClosed = true)
    (hc : Described b args before c) (hp : c.point ≠ .exit) (h : b.step w c t = .done c' t') :
    (after c.point).Describes c'.store := by
  unfold Body.step at h
  split at h
  · rename_i hentry
    cases h
    rw [hentry, hc.entry hentry]
    exact (describes_boundary b args).mono hst.entry.ge
  · rename_i hexit
    exact absurd hexit hp
  · rename_i i hi
    split at h
    · rename_i s hs
      have hin := hc.inside (by simp [hi])
      rw [hi] at hin ⊢
      have hn : Point.stmt i ∈ (Cfg.ofBody b).nodes := Body.stmt_mem_points hs
      have hsettled := hst.settledBy hn (by simp)
      rw [show (Cfg.ofBody b).body.at? (.stmt i) = some s from hs] at hsettled
      exact hsettled.describes_of_run hb (List.mem_of_getElem? hs) hin h
    · exact absurd h (by simp)

/-- **Every step keeps a run described.** -/
theorem described_step (hst : Stable (.ofBody b) before after) (hl : b.Linked)
    (hb : b.isIntClosed = true) (hc : Described b args before c)
    (h : b.step w c t = .done c' t') : Described b args before c' := by
  rcases Body.step_along h with ⟨_, rfl⟩ | ⟨hp, hs⟩
  · exact hc
  obtain ⟨hmem, hne⟩ := Cfg.Linked.mem_succs hl hs
  refine ⟨fun hq => absurd hq hne, fun _ => ?_⟩
  exact (describes_after_step hst hb hc hp h).mono (hst.flows hmem hne hs)

theorem described_exec (hst : Stable (.ofBody b) before after) (hl : b.Linked)
    (hb : b.isIntClosed = true) {n : Nat} (h : b.exec w args n = .done c t) :
    Described b args before c := by
  induction n generalizing c t with
  | zero =>
      cases h
      exact ⟨fun _ => rfl, fun hne => absurd rfl hne⟩
  | succ n ih =>
      obtain ⟨d, u, hd, hstep⟩ := Run.bind_eq_done.mp h
      exact described_step hst hl hb (ih hd) hstep

/-- **Constant propagation is sound.** Whichever solver was used, at every point that a run arrives
at, every tracked variable that has been assigned is `nac` or the constant that it holds. -/
theorem before_admits_of_exec [Nesting] (hparsed : b.Parsed) (hb : b.isIntClosed = true)
    {solver : SolverKind} {s : Solution Point Env} (hs : Returns (.ofBody b) solver s)
    {n : Nat} (hrun : b.exec w args n = .done c t) (hp : c.point ≠ .entry)
    (hx : x.isIntLike = true) (hv : c.store x = some v) :
    ∃ env, s.before.get? c.point = some env ∧
      (env.get x = .nac ∨ env.get x = .const v.toInt) := by
  have hl := hparsed.wellFormed.linked
  refine ⟨beforeAt s c.point, get?_before_of_returns hl hs (Body.point_mem_of_exec hl hrun), ?_⟩
  exact (described_exec (stable_of_returns hl hs) hl hb hrun).inside hp x v hx hv

set_option maxRecDepth 100000 in
/-- With seven for its argument, the example arrives behind its branch with two in `y`. -/
theorem before_admits_of_exec_countdown :
    ∃ s env, Returns (.ofBody countdown) .worklist s ∧ s.before.get? (.stmt 4) = some env ∧
      (env.get (intVar 2 "y") = .nac ∨ env.get (intVar 2 "y") = .const 2) := by
  obtain ⟨s, hs⟩ : ∃ s, solveWithin (.ofBody countdown) .worklist 24 = some s :=
    Option.isSome_iff_exists.mp (by decide +kernel)
  obtain ⟨c, t, hrun, hp, hv⟩ : ∃ c t, countdown.exec (fun _ => 0) (fun _ => 7) 4 = .done c t ∧
      c.point = .stmt 4 ∧ c.store (intVar 2 "y") = some 2 :=
    ⟨_, _, rfl, rfl, rfl⟩
  obtain ⟨env, henv, hadm⟩ := before_admits_of_exec parsed_countdown (by decide) ⟨24, hs⟩ hrun
    (by simp [hp]) (by decide) hv
  exact ⟨s, env, ⟨24, hs⟩, hp ▸ henv, hadm⟩

end Constants

end TacFlow
