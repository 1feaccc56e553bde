import TacFlow.CommandLine.Outcome
import TacFlow.Proofs.Program.Limits
import TacFlow.Proofs.Session.Documents
import TacFlow.Proofs.Session.Effects

/-!
# Runs under limits

A run asks for solutions, call graphs and texts, each under its limit. None of them is another one under
other limits, so neither is what a run leaves and what a command line answers: lower limits make it fail, as
nested too deep, or they make no difference.
-/

namespace TacFlow

/-! ## What is within limits -/

theorem Stmt.kept_isWritable (s : Stmt) : Kept fun _ => s.isWritable :=
  fun _ _ hN h => decide_eq_true (Nat.lt_of_lt_of_le (of_decide_eq_true h) hN.writable)

namespace Hierarchy

variable (h : Hierarchy)

theorem kept_canFindTargets (kind : CallKind) (target : MethodId) :
    Kept fun _ => h.canFindTargets kind target :=
  target.subsig.kept_isShallow.or (kept_all (·.kept_canLookUp target.subsig) _)

theorem kept_canExplore (m : MethodId) : Kept fun _ => h.canExplore m := by
  unfold canExplore
  split
  · exact m.kept_isWritable
  · exact kept_all (fun (_, c) => h.kept_canFindTargets c.kind c.target) _

end Hierarchy

theorem Constants.kept_canTrack (b : Body) : Kept fun _ => Constants.canTrack b :=
  kept_all (·.type.kept_isSearchable) _

theorem InterConstants.kept_canTrack (b : Body) : Kept fun _ => InterConstants.canTrack b :=
  kept_all (·.type.kept_isSearchable) _

theorem Body.kept_isWritable (b : Body) : Kept fun _ => b.isWritable :=
  kept_all Stmt.kept_isWritable b.stmts

theorem CallEdge.kept_isWritable (e : CallEdge) : Kept fun _ => e.isWritable :=
  e.site.method.kept_isWritable.and e.callee.kept_isWritable

namespace Report

theorem kept_canListAt (b : Body) (positions : List Nat) : Kept fun _ => canListAt b positions :=
  kept_all Stmt.kept_isWritable _

theorem kept_canList (h : Hierarchy) (methods : List MethodId) : Kept fun _ => canList h methods :=
  (kept_all MethodId.kept_isWritable methods).and (kept_all Body.kept_isWritable _)

theorem kept_canListDead (m : Manager) : Kept fun _ => canListDead m :=
  (kept_all MethodId.kept_isWritable _).and (kept_all (fun b => kept_canListAt b _) _)

theorem kept_canWriteCall (h : Hierarchy) (e : CallEdge) : Kept fun _ => canWriteCall h e :=
  e.kept_isWritable.and (kept_option (kept_canListAt · _) _)

theorem kept_canWrite (m : Manager) (draw : Bool) (a : Analysis) : Kept fun _ => canWrite m draw a := by
  cases a with
  | constprop => exact kept_canList _ _
  | deadcode => exact kept_canListDead m
  | cha =>
      refine kept_option (fun g => ?_) m.callGraph
      exact (kept_all MethodId.kept_isWritable g.reachable).and (kept_all (kept_canWriteCall _) g.edges)
  | interConstprop => exact kept_option (fun (g, _) => kept_canList _ g.methods) m.icfg
  | cfg => exact (kept_const _).or (kept_canList _ _)
  | livevar => exact kept_const true
  | icfg => exact kept_const true

theorem kept_canWriteUnresolved (h : Hierarchy) (id : MethodId) :
    Kept fun _ => canWriteUnresolved h id := by
  refine kept_option (fun b => kept_all (fun (i, _) => ?_) b.calls) (h.body? id)
  exact (kept_const _).or (id.kept_isWritable.and (kept_canListAt b [i]))

end Report

theorem Manager.kept_canLog (m : Manager) : Kept fun _ => m.canLog := by
  refine (kept_all (fun (id, _) => (kept_const _).or id.kept_isWritable) m.methods).and
    (kept_option (fun g => ?_) m.callGraph)
  exact (kept_all MethodId.kept_isWritable g.entries).and
    (kept_all (Report.kept_canWriteUnresolved _) g.reachable)

theorem Manager.kept_canReport (m : Manager) (requested : List Analysis) (draw : Bool) :
    Kept fun _ => m.canReport requested draw :=
  kept_all (Report.kept_canWrite m draw) requested

/-! ## Analyses -/

theorem Hierarchy.limited_findTargets? (h : Hierarchy) (kind : CallKind) (target : MethodId) :
    Limited (· = none) fun _ => h.findTargets? kind target :=
  (h.kept_canFindTargets kind target).guard (limited_const _) fun _ => rfl

theorem Hierarchy.limited_buildCallGraph? (h : Hierarchy) (entry : MethodId) :
    Limited (· = none) fun _ => h.buildCallGraph? entry :=
  (kept_all h.kept_canExplore (h.callGraph entry).reachable).guard (limited_const _) fun _ => rfl

/-- The errors of an analysis that refuse what is nested too deep. -/
def SolveError.IsTooDeep (e : SolveError) : Prop :=
  e = .tooDeep

theorem Constants.limited_solveWith (g : Cfg) (solver : SolverKind) :
    Limited (Refused SolveError.IsTooDeep) fun _ => Constants.solveWith g solver := by
  unfold solveWith
  refine Kept.guard_not (kept_canTrack g.body) (limited_const _) fun _ => ?_
  exact rfl

theorem Constants.limited_solve (g : Cfg) (solver : Option String) :
    Limited (Refused SolveError.IsTooDeep) fun _ => Constants.solve g solver := by
  unfold solve
  split
  · exact limited_solveWith g .worklist
  · split
    · rename_i kind _
      exact limited_solveWith g kind
    · exact limited_const _

theorem InterConstants.limited_solve (g : Icfg) :
    Limited (Refused SolveError.IsTooDeep) fun _ => InterConstants.solve g :=
  (kept_all (fun (_, c) => kept_canTrack c.body) g.cfgs).guard (limited_const _) fun _ => rfl

theorem DeadCode.limited_solve (g : Cfg) (solver : Option String) :
    Limited (Refused SolveError.IsTooDeep) fun _ => DeadCode.solve g solver :=
  (Constants.limited_solve g solver).bind fun _ => limited_const _

/-! ## Runs -/

/-- The failures that refuse what is nested too deep. -/
def Failure.IsTooDeep : Failure → Prop
  | .tooDeep => True
  | .load e => e.IsTooDeep
  | .program fault => fault.IsTooDeep
  | .plan e => e.IsTooDeep
  | .solve e => e.IsTooDeep
  | _ => False

namespace Manager

variable {α β ε : Type} {x : Nesting → Run α}

/-- From every manager a computation fails, as nested too deep, or it does just what it does under higher
limits. -/
def LimitedRun (x : Nesting → Run α) : Prop :=
  ∀ m, Limited (fun r => Refused Failure.IsTooDeep r.1) fun N => outcome (x N) m

theorem limitedRun_const (x : Run α) : LimitedRun fun _ => x :=
  fun _ => limited_const _

theorem LimitedRun.bind {k : Nesting → α → Run β} (hx : LimitedRun x) (hk : ∀ a, LimitedRun (k · a)) :
    LimitedRun fun N => x N >>= k N := by
  intro m N N' hN
  dsimp only
  rw [outcome_bind, outcome_bind]
  rcases hx m hN with hrefused | heq
  · refine Or.inl ?_
    dsimp only at hrefused
    generalize outcome (x N) m = r at hrefused ⊢
    rcases r with ⟨f | a, m'⟩
    · exact hrefused
    · exact hrefused.elim
  · dsimp only at heq
    rw [← heq]
    generalize outcome (x N) m = r
    rcases r with ⟨f | a, m'⟩
    · exact Or.inr rfl
    · exact hk a m' hN

theorem LimitedRun.discard (hx : LimitedRun x) : LimitedRun fun N => discard (x N) :=
  hx.bind fun _ => limitedRun_const _

theorem limitedRun_orFail {P : ε → Prop} {r : Nesting → Except ε α} (wrap : ε → Failure)
    (hr : Limited (Refused P) r) (hwrap : ∀ e, P e → (wrap e).IsTooDeep) :
    LimitedRun fun N => orFail wrap (r N) :=
  fun m => hr.map (k := fun r => outcome (orFail wrap r) m) hwrap

theorem limitedRun_orMissing {o : Nesting → Option α} (ho : Limited (· = none) o) :
    LimitedRun fun N => orMissing .tooDeep (o N) := by
  refine fun m => ho.andThen (k := fun _ o => outcome (orMissing .tooDeep o) m) (fun N o ho => ?_) fun _ =>
    limited_const _
  subst ho
  exact trivial

theorem limitedRun_forM {f : Nesting → α → Run PUnit} (hf : ∀ a, LimitedRun (f · a)) (as : List α) :
    LimitedRun fun N => as.forM (f N) := by
  induction as with
  | nil => exact limitedRun_const _
  | cons a as ih => exact (hf a).bind fun _ => ih

theorem limitedRun_guard_not {p : Nesting → Bool} {y : Run α} (hp : Kept p) (hx : LimitedRun x)
    (hy : ∀ m, Refused Failure.IsTooDeep (outcome y m).1) : LimitedRun fun N => if !p N then y else x N := by
  intro m
  simp only [apply_ite (outcome · m)]
  exact hp.guard_not (hx m) fun _ => hy m

/-! ### Method analyses -/

theorem limited_method (signature : String) : LimitedRun fun _ => method signature :=
  (limitedRun_const get).bind fun m =>
    limitedRun_orFail .program (m.program.hierarchy.limited_resolve signature) fun _ he => he

theorem limited_solveConstants (id : MethodId) (solver : Option String) :
    LimitedRun fun _ => solveConstants id solver := by
  refine (limitedRun_const (graph id)).bind fun g => ?_
  exact (limitedRun_orFail .solve (Constants.limited_solve g solver) fun _ he => he).bind fun _ =>
    limitedRun_const _

theorem limited_detectDeadCode (id : MethodId) (solver : Option String) :
    LimitedRun fun _ => detectDeadCode id solver := by
  refine (limitedRun_const (graph id)).bind fun g => ?_
  refine (limitedRun_const get).bind fun m => ?_
  dsimp only
  split
  · exact limitedRun_const _
  · exact (limited_solveConstants id solver).bind fun _ => limitedRun_const _

theorem limited_runOnMethod (config : AnalysisConfig) (id : MethodId) :
    LimitedRun fun _ => runOnMethod config id := by
  unfold runOnMethod
  split
  · exact (limited_solveConstants id _).discard
  · exact limitedRun_const _
  · exact (limited_detectDeadCode id _).bind fun _ => limitedRun_const _
  · exact limitedRun_const _

/-! ### Program analyses -/

theorem limited_entryMethod (entry : Option MethodId) : LimitedRun fun _ => entryMethod entry := by
  cases entry with
  | some id => exact limitedRun_const _
  | none =>
      refine (limitedRun_const get).bind fun before => ?_
      refine (limitedRun_const (modify _)).bind fun _ => ?_
      refine (limitedRun_const get).bind fun m => ?_
      refine (limitedRun_const (orMissing .noEntryMethod m.program.main)).bind fun main => ?_
      dsimp only
      cases before.program.main with
      | some _ => exact limitedRun_const _
      | none =>
          simp only [Option.isNone_none, Bool.true_and]
          exact limitedRun_guard_not main.kept_isWritable (limitedRun_const _) fun _ => trivial

theorem limited_ofStrayEntry (h : Hierarchy) (signature : Json.Str) :
    Limited Failure.IsTooDeep fun _ => Failure.ofStrayEntry h signature := by
  intro N N' hN
  unfold Failure.ofStrayEntry
  rcases (MethodId.limited_read signature.shown).cases hN with ⟨e, he, rfl⟩ | heq
  · dsimp only at he ⊢
    rw [he]
    exact Or.inl trivial
  · dsimp only at heq ⊢
    rw [← heq]
    exact Or.inr rfl

theorem limited_chosenEntry (config : AnalysisConfig) : LimitedRun fun _ => chosenEntry config := by
  unfold chosenEntry
  split
  · exact limitedRun_const _
  · split
    · exact limitedRun_const _
    · split
      · rename_i signature _ _
        refine (limitedRun_const get).bind fun m => ?_
        refine LimitedRun.bind (x := fun _ => orMissing (.ofStrayEntry m.program.hierarchy signature)
          signature.text?) ?_ fun text => (limited_method text).bind fun _ => limitedRun_const _
        cases signature.text? with
        | some text => exact limitedRun_const (pure text)
        | none =>
            exact fun m' => (limited_ofStrayEntry m.program.hierarchy signature).andThen
              (k := fun _ f => outcome (throw f) m') (fun _ _ hf => hf) fun _ => limited_const _
      · exact limitedRun_const _

theorem limited_runCallGraph (config : AnalysisConfig) : LimitedRun fun _ => runCallGraph config := by
  refine (limited_chosenEntry config).bind fun chosen => ?_
  refine (limited_entryMethod chosen).bind fun entry => ?_
  refine (limitedRun_const get).bind fun m => ?_
  exact (limitedRun_orMissing (m.program.hierarchy.limited_buildCallGraph? entry)).bind fun _ =>
    limitedRun_const _

theorem limited_runInterConstants : LimitedRun fun _ => runInterConstants := by
  refine (limitedRun_const get).bind fun m => ?_
  refine (limitedRun_const (orMissing _ m.icfg)).bind fun (icfg, graphs) => ?_
  exact (limitedRun_orFail .solve (InterConstants.limited_solve icfg) fun _ => id).bind fun _ =>
    limitedRun_const _

theorem limited_runAnalysis (config : AnalysisConfig) : LimitedRun fun _ => runAnalysis config := by
  unfold runAnalysis
  split
  · exact limited_runCallGraph config
  · exact limitedRun_const _
  · exact limited_runInterConstants
  · exact (limitedRun_const get).bind fun m => limitedRun_forM (limited_runOnMethod config) m.analysedMethods

/-- A plan leaves just what it leaves under higher limits, or fails as nested too deep. -/
theorem limited_runPlan (p : Plan) : LimitedRun fun _ => runPlan p :=
  limitedRun_forM limited_runAnalysis p.configs

end Manager

/-! ## Answers -/

namespace Outcome

/-- The answer is a failure that refuses what is nested too deep. -/
def IsTooDeep (o : Outcome) : Prop :=
  ∃ f, o.failure = some f ∧ f.IsTooDeep

variable (r : Arguments.Request) (plan : Plan)

theorem limited_ofFinished (m : Manager) : Limited IsTooDeep fun _ => ofFinished r plan m := by
  unfold ofFinished
  split
  · exact limited_const _
  · exact (m.kept_canReport _ _).guard (limited_const _) fun _ => ⟨.tooDeep, rfl, trivial⟩

/-- A detailed log has to be written before anything else. -/
theorem limited_ofLogged (m : Manager) {x : Nesting → Outcome} (hx : Limited IsTooDeep x) :
    Limited IsTooDeep fun N =>
      if detailed ≤ r.verbosity && !m.canLog then failed .tooDeep (warnings m) else x N := by
  by_cases hdetailed : detailed ≤ r.verbosity
  · simp only [hdetailed, decide_true, Bool.true_and]
    exact m.kept_canLog.guard_not hx fun _ => ⟨.tooDeep, rfl, trivial⟩
  · simpa [hdetailed] using hx

theorem limited_ofProgram (program : Program) : Limited IsTooDeep fun _ => ofProgram r plan program := by
  intro N N' hN
  have hrun := Manager.limited_runPlan plan (.ofProgram program) hN
  unfold ofProgram
  dsimp only [Manager.outcome] at hrun ⊢
  rcases hrun with hrefused | heq
  · refine Or.inl ?_
    generalize (@Manager.runPlan N plan).run.run (.ofProgram program) = answer at hrefused ⊢
    rcases answer with ⟨f | _, m⟩
    · dsimp only
      split
      · exact ⟨.tooDeep, rfl, trivial⟩
      · exact ⟨f, rfl, hrefused⟩
    · exact hrefused.elim
  · rw [← heq]
    generalize (@Manager.runPlan N plan).run.run (.ofProgram program) = answer
    rcases answer with ⟨f | _, m⟩
    · exact limited_ofLogged r m (limited_const _) hN
    · exact limited_ofLogged r m (limited_ofFinished r plan m) hN

theorem limited_ofProgramText (path text : String) :
    Limited IsTooDeep fun _ => ofProgramText r plan path text := by
  intro N N' hN
  unfold ofProgramText
  rcases (Program.limited_ofFile path text (entryText r)).cases hN with ⟨e, he, hdeep⟩ | heq
  · dsimp only at he ⊢
    rw [he]
    exact Or.inl ⟨.load e, rfl, hdeep⟩
  · dsimp only at heq ⊢
    rw [← heq]
    split
    · exact Or.inr rfl
    · split
      · exact Or.inr rfl
      · exact limited_ofProgram r plan _ hN

theorem limited_ofWritten (written : Plan) (path text : String) :
    Limited IsTooDeep fun _ => ofWritten r written path text := by
  unfold ofWritten
  split
  · exact limited_const _
  · exact limited_ofProgramText r _ path text

theorem limited_withFile {next : Nesting → String → Outcome} (find : String → Path.Found) (kind path : String)
    (hnext : ∀ text, Limited IsTooDeep (next · text)) :
    Limited IsTooDeep fun N => withFile find kind path (next N) := by
  unfold withFile
  split
  · exact hnext _
  · exact limited_const _
  · exact limited_const _

theorem limited_ofRequest (find : String → Path.Found) (path text : String) :
    Limited IsTooDeep fun _ => ofRequest find r path text := by
  unfold ofRequest
  split
  · exact limited_ofWritten r .empty path text
  · rename_i planPath _
    refine limited_withFile find "plan" planPath fun planText => ?_
    intro N N' hN
    rcases (Plan.limited_ofText (Path.normal planPath) planText).cases hN with ⟨e, he, hdeep⟩ | heq
    · dsimp only at he ⊢
      rw [he]
      exact Or.inl ⟨.plan e, rfl, hdeep⟩
    · dsimp only at heq ⊢
      rw [← heq]
      split
      · exact limited_ofWritten r _ path text hN
      · exact Or.inr rfl

/-- The answer to the arguments is just the one under higher limits, or it is a failure because something is
nested too deep. -/
theorem limited_ofArguments (find : String → Path.Found) (args : List String) :
    Limited IsTooDeep fun _ => ofArguments find args := by
  unfold ofArguments
  split
  · exact limited_const _
  · exact limited_withFile find "program" _ fun text => limited_ofRequest _ find _ text

end Outcome

end TacFlow
