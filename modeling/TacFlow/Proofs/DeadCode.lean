import TacFlow.DeadCode
import TacFlow.Proofs.Code.Reading
import TacFlow.Proofs.Constant.Soundness
import TacFlow.Proofs.Liveness.Equations
import TacFlow.Proofs.Search

/-!
# Removing dead code

A body with its dead statements replaced by `nop` does the same as before: step for step it arrives
at the same points with the same events behind it.

Three facts meet here. Constant propagation is sound, so a run never takes a branch that the walk
over the graph leaves out, and every point that it arrives at has been walked to. Liveness is
correct, so a value that is not live is never read. And a pure right-hand side, being a single
operation, makes no event. The simulation relates configurations at the same point whose variables
agree where they are live.
-/

namespace TacFlow

/-- The body with some of its statements replaced by `nop`. -/
def Body.without (b : Body) (dead : List Nat) : Body :=
  { b with stmts := b.stmts.mapIdx fun i s => if i ∈ dead then .nop else s }

namespace DeadCode

variable {g : Cfg} {b : Body} {constants : Point → Env} {p q : Point} {w : World}
  {args : Var → Word} {c c' : Config} {t t' : Trace} {i : Nat} {s : Stmt} {σ : Store}

/-! ## The walk -/

theorem mem_succs_of_mem_liveSuccs (h : q ∈ liveSuccs (.ofBody b) constants p) :
    q ∈ (Cfg.ofBody b).succs p := by
  unfold liveSuccs at h
  split at h
  · split at h
    · obtain ⟨e, he, rfl⟩ := List.mem_map.mp h
      exact List.mem_map_of_mem (List.mem_filter.mp he).1
    · exact h
  · rename_i x cases default hs
    obtain ⟨i, rfl, hs⟩ := Body.at?_eq_some.mp hs
    split at h
    · split at h
      · cases default with
        | none => exact absurd h (by simp)
        | some k =>
            have hq : q = .stmt k := by simpa using h
            exact hq ▸ Cfg.mem_succs_default hs
      · obtain ⟨d, hd, rfl⟩ := List.mem_map.mp h
        rename_i hits
        have hmem : d ∈ cases.filter _ := hd
        exact Cfg.mem_succs_of_mem_cases hs (List.mem_filter.mp hmem).1
    · exact h
  · exact h

section

variable (hb : b.Linked)

include hb

theorem mem_nodes_of_mem_liveSuccs (hq : q ∈ liveSuccs (.ofBody b) constants p) :
    q ∈ (Cfg.ofBody b).nodes :=
  (Cfg.Linked.mem_succs hb (mem_succs_of_mem_liveSuccs hq)).1

theorem entry_mem_reached : .entry ∈ reached (.ofBody b) constants := by
  have hentry : Point.entry ∈ (Cfg.ofBody b).nodes := b.entry_mem_points
  exact Search.mem_reach_of_mem_start (fun _ _ _ => mem_nodes_of_mem_liveSuccs hb) (by simpa)
    (by simp)

theorem mem_reached_of_mem_liveSuccs (hp : p ∈ reached (.ofBody b) constants)
    (hq : q ∈ liveSuccs (.ofBody b) constants p) : q ∈ reached (.ofBody b) constants := by
  have hentry : Point.entry ∈ (Cfg.ofBody b).nodes := b.entry_mem_points
  exact Search.mem_reach_of_mem_next (fun _ _ _ => mem_nodes_of_mem_liveSuccs hb) (by simpa) hp hq

end

/-- **A statement goes on to a point that the walk goes on to.** -/
theorem mem_liveSuccs_of_run (hs : b.stmts[i]? = some s) (hd : (constants (.stmt i)).Describes σ)
    (ht : (constants (.stmt i)).get ≤ Constants.knowable b)
    (h : s.run w b i σ t = .done c t') :
    c.point ∈ liveSuccs (.ofBody b) constants (.stmt i) := by
  have hat : (Cfg.ofBody b).body.at? (.stmt i) = some s := hs
  have hsucc : c.point ∈ (Cfg.ofBody b).succs (.stmt i) := by
    obtain ⟨e, he, hq⟩ := Stmt.run_along h
    exact Cfg.mem_succs_stmt.mpr ⟨s, hs, e, he, hq⟩
  unfold liveSuccs
  rw [hat]
  cases s with
  | branch cond target =>
      dsimp only
      split
      · rename_i n hn
        obtain ⟨v, u, hv, hc⟩ := Run.bind_eq_done.mp h
        have hvn := Expr.toInt_of_eval_const hd ht cond hn hv
        have hnext := (Config.choose_eq_done hc).1
        split at hnext
        · rename_i hone
          obtain ⟨k, rfl, hk⟩ := Option.map_eq_some_iff.mp hnext
          have hn1 : n = 1 := by rw [← hvn, hone]; rfl
          have hedge : ⟨.stmt i, .stmt k, .ifTrue, none⟩ ∈ (Cfg.ofBody b).outEdges (.stmt i) :=
            Cfg.mem_outEdges_stmt.mpr ⟨_, hs, by simp [Cfg.exitsOf]⟩
          exact List.mem_map.mpr ⟨_, List.mem_filter.mpr ⟨hedge, by simp [hn1]⟩, hk⟩
        · rename_i hone
          have hn1 : n ≠ 1 := by
            intro hq
            refine hone (BitVec.eq_of_toInt_eq ?_)
            rw [hvn, hq]; rfl
          have hedge : ⟨.stmt i, b.following i, .ifFalse, none⟩ ∈
              (Cfg.ofBody b).outEdges (.stmt i) :=
            Cfg.mem_outEdges_stmt.mpr ⟨_, hs, by simp [Cfg.exitsOf]⟩
          exact List.mem_map.mpr
            ⟨_, List.mem_filter.mpr ⟨hedge, by simp [hn1]⟩, Option.some.inj hnext⟩
      · exact hsucc
  | switch x cases default =>
      dsimp only
      split
      · rename_i n hn
        obtain ⟨v, u, hv, hc⟩ := Run.bind_eq_done.mp h
        have hvn := Expr.toInt_of_eval_const (w := w) hd ht (.var x) hn hv
        obtain ⟨k, hk, hp⟩ := Option.map_eq_some_iff.mp (Config.choose_eq_done hc).1
        subst hvn
        cases hcase : caseFor cases v with
        | some k' =>
            have hkk : k' = k := by simpa [hcase] using hk
            have hmem : (v.toInt, k') ∈ cases.filter (·.1 = v.toInt) :=
              List.mem_filter.mpr ⟨caseFor_mem hcase, by simp⟩
            split
            · rename_i hnil
              rw [hnil] at hmem
              exact absurd hmem (by simp)
            · rw [← hp, ← hkk]
              exact List.mem_map_of_mem (f := fun hit => Point.stmt hit.2) hmem
        | none =>
            have hnone : cases.filter (·.1 = v.toInt) = [] := by
              rw [caseFor, Option.map_eq_none_iff, List.find?_eq_none] at hcase
              rw [List.filter_eq_nil_iff]
              exact hcase
            have hdefault : default = some k := by simpa [hcase] using hk
            rw [hnone, hdefault, ← hp]
            simp
      · exact hsucc
  | _ => exact hsucc

/-- A step goes on to a point that the walk goes on to. -/
theorem mem_liveSuccs_of_step (hin : c.point ≠ .entry → (constants c.point).Describes c.store)
    (ht : c.point ≠ .entry → (constants c.point).get ≤ Constants.knowable b)
    (hp : c.point ≠ .exit) (h : b.step w c t = .done c' t') :
    c'.point ∈ liveSuccs (.ofBody b) constants c.point := by
  unfold Body.step at h
  split at h
  · rename_i hentry
    cases h
    rw [hentry]
    exact Cfg.mem_succs_entry.mpr rfl
  · rename_i hexit
    exact absurd hexit hp
  · rename_i i hi
    split at h
    · rename_i s hs
      rw [hi] at hin ht ⊢
      exact mem_liveSuccs_of_run hs (hin (by simp)) (ht (by simp)) h
    · exact absurd h (by simp)

/-- **Every point that a run arrives at has been walked to.** -/
theorem mem_reached_of_exec {after : Point → Env}
    (hst : Constants.Stable (.ofBody b) constants after) (hl : b.Linked)
    (hb : b.isIntClosed = true) {n : Nat} (h : b.exec w args n = .done c t) :
    c.point ∈ reached (.ofBody b) constants := by
  induction n generalizing c t with
  | zero =>
      cases h
      exact entry_mem_reached hl
  | succ n ih =>
      obtain ⟨d, u, hd, hstep⟩ := Run.bind_eq_done.mp h
      rcases Body.step_along hstep with ⟨_, rfl⟩ | ⟨hp, _⟩
      · exact ih hd
      · refine mem_reached_of_mem_liveSuccs hl (ih hd) ?_
        exact mem_liveSuccs_of_step (Constants.described_exec hst hl hb hd).inside
          (hst.tracked (Body.point_mem_of_exec hl hd)) hp hstep

/-! ## Pure expressions -/

theorem run_of_isAtom {e : Expr} (h : e.isAtom = true) :
    e.run w σ t = .blocked ∨ ∃ v, e.run w σ t = .done v t := by
  cases e with
  | lit n => exact Or.inr ⟨_, rfl⟩
  | var x =>
      simp only [Expr.run, Store.read]
      split
      · rename_i v _; exact Or.inr ⟨v, rfl⟩
      · exact Or.inl rfl
  | _ => exact absurd h (by simp [Expr.isAtom])

/-- A pure operation on variables and literals makes no event. -/
theorem run_of_isPure {e : Expr} (hflat : e.isFlat = true) (hpure : e.isPure = true) :
    e.run w σ t = .blocked ∨ ∃ v, e.run w σ t = .done v t := by
  cases e with
  | lit n => exact run_of_isAtom rfl
  | var x => exact run_of_isAtom rfl
  | binary op left right =>
      simp only [Expr.isFlat, Bool.and_eq_true] at hflat
      have hop : ∀ u v : Word, ∃ r, op.onWords u v = some r := by
        intro u v
        rw [← Option.isSome_iff_exists, Option.isSome_iff_ne_none, ne_eq, BinOp.onWords_eq_none]
        rintro ⟨hdiv, _⟩
        simp [Expr.isPure, hdiv] at hpure
      simp only [Expr.run]
      rcases run_of_isAtom (w := w) (σ := σ) (t := t) hflat.1 with hl | ⟨u, hl⟩
      · rw [hl]; exact Or.inl rfl
      · rcases run_of_isAtom (w := w) (σ := σ) (t := t) hflat.2 with hr | ⟨v, hr⟩
        · rw [hl, Run.bind, hr]; exact Or.inl rfl
        · obtain ⟨r, hr'⟩ := hop u v
          rw [hl, Run.bind, hr, Run.bind, hr']
          exact Or.inr ⟨r, rfl⟩
  | call kind target receiver as => exact absurd hflat (by simp [Expr.isFlat])
  | _ => exact absurd hpure (by simp [Expr.isPure])

/-! ## The simulation -/

variable {before after : Point → FinSet Var} {dead : List Nat} {x : Var}

/-- Two runs stand at the same point and agree on the variables that are live there. -/
structure Agree (live : Point → FinSet Var) (c c' : Config) : Prop where
  /-- The points are the same. -/
  point : c.point = c'.point
  /-- A live variable has the same value in both. -/
  store {x : Var} : x ∈ (live c.point).elements → c.store x = c'.store x

theorem getElem?_without (b : Body) (dead : List Nat) (i : Nat) :
    (b.without dead).stmts[i]? = (b.stmts[i]?).map fun s => if i ∈ dead then .nop else s := by
  simp [Body.without]

theorem length_without (b : Body) (dead : List Nat) :
    (b.without dead).stmts.length = b.stmts.length := by
  simp [Body.without]

theorem following_without (b : Body) (dead : List Nat) (i : Nat) :
    (b.without dead).following i = b.following i := by
  rw [Body.following, Body.following, length_without]

theorem first_without (b : Body) (dead : List Nat) : (b.without dead).first = b.first := by
  have hempty : (b.without dead).stmts.isEmpty = b.stmts.isEmpty := by
    rw [Bool.eq_iff_iff, List.isEmpty_iff_length_eq_zero, List.isEmpty_iff_length_eq_zero,
      length_without]
  rw [Body.first, Body.first, hempty]

/-- What is live at the next point was live before, unless it has just been written. -/
theorem mem_before_of_mem_succ (hlive : Liveness.Stable (.ofBody b) before after)
    (hs : b.stmts[i]? = some s) (hq : q ∈ (Cfg.ofBody b).succs (.stmt i))
    (hx : x ∈ (before q).elements) (hd : s.defined ≠ some x) :
    x ∈ (before (.stmt i)).elements := by
  have hn : Point.stmt i ∈ (Cfg.ofBody b).nodes := Body.stmt_mem_points hs
  have hat : (Cfg.ofBody b).body.at? (.stmt i) = some s := hs
  rw [hlive.transfers hn (by simp), hat, Liveness.mem_transferStmt]
  exact Or.inr ⟨hlive.flows hn (by simp) hq hx, hd⟩

/-- A useless assignment and the `nop` in its place lead to agreeing configurations. -/
theorem matched_useless (hlive : Liveness.Stable (.ofBody b) before after)
    (hs : b.stmts[i]? = some s) (hflat : s.isFlat = true)
    (huseless : isUseless (after (.stmt i)) s = true)
    (hc : Agree before ⟨.stmt i, σ⟩ c') :
    Run.Matched (Agree before) (s.run w b i σ t) (.done ⟨b.following i, c'.store⟩ t) := by
  unfold isUseless at huseless
  split at huseless
  · rename_i x value
    simp only [Bool.and_eq_true, Bool.not_eq_true', FinSet.contains, decide_eq_false_iff_not]
      at huseless
    obtain ⟨hx, hpure⟩ := huseless
    have hn : Point.stmt i ∈ (Cfg.ofBody b).nodes := Body.stmt_mem_points hs
    have hsucc : b.following i ∈ (Cfg.ofBody b).succs (.stmt i) :=
      Cfg.mem_succs_stmt.mpr ⟨_, hs, _, List.mem_singleton.mpr rfl, rfl⟩
    rw [Stmt.run]
    rcases run_of_isPure (w := w) (σ := σ) (t := t) hflat hpure with hv | ⟨v, hv⟩
    · rw [hv]; exact .blocked
    · rw [hv]
      refine .done ⟨rfl, ?_⟩
      intro y hy
      -- the assigned variable is not live, so `y` is another one
      have hyx : y ≠ x := fun hq => hx (hq ▸ hlive.flows hn (by simp) hsucc hy)
      have hdef : (Stmt.assign (.var x) value).defined ≠ some y :=
        fun hq => hyx (Option.some.inj hq).symm
      have hlive' := hc.store (mem_before_of_mem_succ hlive hs hsucc hy hdef)
      simpa [Store.put, hyx] using hlive'
  · exact absurd huseless (by simp)

/-- **One step of the two bodies.** A statement that is dead in spite of being walked to is a
useless assignment; any other one is the same in both. -/
theorem matched_step (hlive : Liveness.Stable (.ofBody b) before after)
    (hflat : ∀ s ∈ b.stmts, s.isFlat = true)
    (hdead : ∀ i s, c.point = .stmt i → i ∈ dead → b.stmts[i]? = some s →
      isUseless (after (.stmt i)) s = true)
    (hc : Agree before c c') :
    Run.Matched (Agree before) (b.step w c t) ((b.without dead).step w c' t) := by
  obtain ⟨p, σ⟩ := c
  obtain ⟨p', σ'⟩ := c'
  obtain rfl : p = p' := hc.point
  unfold Body.step
  cases p with
  | entry =>
      dsimp only
      rw [first_without]
      refine .done ⟨rfl, ?_⟩
      intro x hx
      have hn : Point.entry ∈ (Cfg.ofBody b).nodes := b.entry_mem_points
      refine hc.store ((hlive.transfers hn (by simp)).mpr ?_)
      exact hlive.flows hn (by simp) (Cfg.mem_succs_entry.mpr rfl) hx
  | exit => exact .done hc
  | stmt i =>
      dsimp only
      rw [getElem?_without]
      cases hs : b.stmts[i]? with
      | none => exact .blocked
      | some s =>
          have hmem := List.mem_of_getElem? hs
          by_cases hi : i ∈ dead
          · simp only [Option.map_some, if_pos hi, Stmt.run, following_without]
            exact matched_useless hlive hs (hflat s hmem) (hdead i s rfl hi hs) hc
          · simp only [Option.map_some, if_neg hi]
            have hat : (Cfg.ofBody b).body.at? (.stmt i) = some s := hs
            have hn : Point.stmt i ∈ (Cfg.ofBody b).nodes := Body.stmt_mem_points hs
            have huses : ∀ x ∈ s.uses, σ x = σ' x := by
              intro x hx
              refine hc.store ((hlive.transfers hn (by simp)).mpr ?_)
              rw [hat]
              exact Liveness.mem_transferStmt.mpr (Or.inl hx)
            refine (Stmt.matched_run (length_without b dead) s t huses).imp ?_
            intro d d' u hrun hagree
            obtain ⟨e, he, hq⟩ := Stmt.run_along hrun
            have hsucc : d.point ∈ (Cfg.ofBody b).succs (.stmt i) :=
              Cfg.mem_succs_stmt.mpr ⟨s, hs, e, he, hq⟩
            refine ⟨hagree.1, ?_⟩
            intro x hx
            by_cases hd : s.defined = some x
            · exact hagree.2 x (Or.inr hd)
            · exact hagree.2 x (Or.inl (hc.store (mem_before_of_mem_succ hlive hs hsucc hx hd)))

theorem matched_exec (hlive : Liveness.Stable (.ofBody b) before after)
    (hflat : ∀ s ∈ b.stmts, s.isFlat = true)
    (hdead : ∀ n c t i s, b.exec w args n = .done c t → c.point = .stmt i → i ∈ dead →
      b.stmts[i]? = some s → isUseless (after (.stmt i)) s = true) (n : Nat) :
    Run.Matched (Agree before) (b.exec w args n) ((b.without dead).exec w args n) := by
  induction n with
  | zero => exact .done ⟨rfl, fun _ => rfl⟩
  | succ n ih =>
      refine ih.bind ?_
      intro c c' t hrun hc
      exact matched_step hlive hflat (fun i s hp => hdead n c t i s hrun hp) hc

/-! ## What is reported -/

/-- What is reported for a body: the statements that are dead by the constants that a solver
returns and the live variables. -/
def Reports (g : Cfg) (solver : SolverKind) (constants : Solution Point Env) (dead : List Nat) :
    Prop :=
  Constants.Returns g solver constants ∧
    ∃ live, Liveness.Returns g live ∧ dead = ofSolutions g constants live

/-- Whatever is asked for by the name of a solver comes from one of the solvers. -/
theorem reports_of_solve [Nesting] {name : Option String} {dead : List Nat} (h : solve g name = .ok dead) :
    ∃ solver constants, Reports g solver constants dead := by
  obtain ⟨constants, hc, h⟩ := Resolve.bind_eq_ok.mp h
  obtain ⟨live, hl, h⟩ := Resolve.bind_eq_ok.mp h
  obtain ⟨solver, hreturns⟩ := Constants.returns_of_solve hc
  cases h
  exact ⟨solver, constants, hreturns, live, Liveness.returns_of_solve hl, rfl⟩

theorem mem_detect {live : Point → FinSet Var} :
    i ∈ detect g constants live ↔ ∃ s, g.body.stmts[i]? = some s ∧
      (.stmt i ∉ reached g constants ∨ isUseless (live (.stmt i)) s = true) := by
  simp only [detect, List.mem_map, List.mem_filter, Prod.exists, List.mk_mem_zipIdx_iff_getElem?,
    Bool.or_eq_true, decide_eq_true_eq]
  constructor
  · rintro ⟨s, j, ⟨hs, h⟩, rfl⟩; exact ⟨s, hs, h⟩
  · rintro ⟨s, hs, h⟩; exact ⟨s, i, ⟨hs, h⟩, rfl⟩

/-- **Removing dead code preserves meaning.** With every reported statement replaced by `nop`, a
run of any length arrives at the same point with the same events behind it, and it throws after the
same events, unless the original body reads an unassigned variable. A statement that the walk does
not reach is executed in no run. -/
theorem matched_exec_without [Nesting] (hparsed : b.Parsed) (hb : b.isIntClosed = true) {solver : SolverKind}
    {cs : Solution Point Env} (hdead : Reports (.ofBody b) solver cs dead)
    (w : World) (args : Var → Word) (n : Nat) :
    Run.Matched (fun c c' => c.point = c'.point)
        (b.exec w args n) ((b.without dead).exec w args n) ∧
      ∀ i, .stmt i ∉ reached (.ofBody b) (Constants.beforeAt cs) →
        ∀ c t, b.exec w args n = .done c t → c.point ≠ .stmt i := by
  have hl := hparsed.wellFormed.linked
  obtain ⟨hcs, live, hlive, rfl⟩ := hdead
  have hst := Constants.stable_of_returns hl hcs
  have hreached : ∀ n c t, b.exec w args n = .done c t →
      c.point ∈ reached (.ofBody b) (Constants.beforeAt cs) :=
    fun n c t hrun => mem_reached_of_exec hst hl hb hrun
  refine ⟨?_, ?_⟩
  · refine (matched_exec (Liveness.stable_of_returns hlive)
      (fun s hs => hparsed.wellFormed.flat hs) ?_ n).imp fun c c' t _ hc => hc.point
    intro n c t i s hrun hp hi hs
    obtain ⟨s', hs', hor⟩ := mem_detect.mp hi
    have hss : s' = s := Option.some.inj (hs'.symm.trans hs)
    refine hss ▸ hor.resolve_left ?_
    exact fun hunreached => hunreached (hp ▸ hreached n c t hrun)
  · intro i hi c t hrun hp
    exact hi (hp ▸ hreached n c t hrun)

set_option maxRecDepth 100000 in
/-- In the example the assignments at 3 and at 5 go. -/
theorem matched_exec_without_countdown :
    ∃ cs, Reports (.ofBody countdown) .worklist cs [3, 5] ∧
      Run.Matched (fun c c' => c.point = c'.point)
        (countdown.exec (fun _ => 0) (fun _ => 7) 20)
        ((countdown.without [3, 5]).exec (fun _ => 0) (fun _ => 7) 20) := by
  have hreport : ((Constants.solveWithin (.ofBody countdown) .worklist 24).bind fun cs =>
      (Liveness.solveWithin (.ofBody countdown) 10).map (ofSolutions (.ofBody countdown) cs)) =
        some [3, 5] := by decide +kernel
  obtain ⟨cs, hcs, hreport⟩ := Option.bind_eq_some_iff.mp hreport
  obtain ⟨live, hlive, hdead⟩ := Option.map_eq_some_iff.mp hreport
  have hreports : Reports (.ofBody countdown) .worklist cs [3, 5] :=
    ⟨⟨24, hcs⟩, live, ⟨10, hlive⟩, hdead.symm⟩
  exact ⟨cs, hreports,
    (matched_exec_without parsed_countdown (by decide) hreports (fun _ => 0) (fun _ => 7) 20).1⟩

end DeadCode

end TacFlow
