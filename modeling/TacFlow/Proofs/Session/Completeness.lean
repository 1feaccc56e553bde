import TacFlow.Proofs.Session.Consistency

/-!
# Runs of plans are complete

A run of a plan either completes, and then everything that the plan asks for is stored, or it stops at
the call graph because the entry method is refused, and then everything before it is stored and nothing
else.

`Ran` is the invariant: what is stored when the first analyses of a plan have run. The methods that are
analysed change in the middle of a run, when there is a call graph. From then on they are fewer, so what
ran on all methods before has run on those too; what comes later runs on the fewer ones, and that is all
that is asked of it.
-/

namespace TacFlow

open Plan (Runnable)

variable {p : Program} {m m' : Manager} {done : List Analysis} {c : AnalysisConfig} {a b : Analysis}
  {id : MethodId}

/-! ## Methods -/

/-- The methods with a body are those whose code is found. -/
theorem Program.mem_methodsWithBody (hw : p.hierarchy.WellFormed) :
    id ∈ p.methodsWithBody ↔ (p.hierarchy.body? id).isSome = true := by
  have hmethods : ∀ d, d ∈ p.hierarchy.methods ↔ d ∈ p.hierarchy.declaredMethods := by
    intro d
    simp only [Hierarchy.methods, List.mem_flatMap, Hierarchy.mem_classes hw.toLinked,
      Hierarchy.mem_declaredMethods]
  constructor
  · intro hid
    obtain ⟨d, hd, rfl⟩ := List.mem_map.mp hid
    obtain ⟨hd, hbody⟩ := List.mem_filter.mp hd
    rw [Hierarchy.body?, hw.method?_eq_some.mpr ⟨(hmethods d).mp hd, rfl⟩]
    exact hbody
  · intro hbody
    obtain ⟨b, hb⟩ := Option.isSome_iff_exists.mp hbody
    obtain ⟨d, hd, hb⟩ := Option.bind_eq_some_iff.mp hb
    obtain ⟨hd, hid⟩ := hw.method?_eq_some.mp hd
    exact List.mem_map.mpr ⟨d, List.mem_filter.mpr ⟨(hmethods d).mpr hd, by simp [hb]⟩, hid⟩

/-- An entry method that a program comes with is declared. -/
theorem Program.Parsed.exists_declared_of_main [Nesting] (hp : p.Parsed) {main : MethodId}
    (hmain : p.main = some main) : ∃ d ∈ p.hierarchy.declaredMethods, d.id = main := by
  obtain ⟨text, chosen, source, hp⟩ := hp
  obtain ⟨h, _, hp⟩ := Resolve.bind_eq_ok.mp hp
  split at hp
  · cases hp
    exact absurd hmain (by simp)
  · split at hp
    · exact absurd hp (by simp)
    · rename_i d hd
      cases hp
      exact ⟨d, Hierarchy.mem_declaredMethods_of_resolve hd, Option.some.inj hmain⟩

/-- A method analysis requires method analyses only. -/
theorem Analysis.Requires.perMethod (h : a.Requires b) (ha : a.perMethod = true) :
    b.perMethod = true := by
  revert h ha
  unfold Requires
  cases a <;> cases b <;> decide

namespace Plan.Runnable

/-- The front of ids that can be run can be run. -/
theorem of_append {ids more : List Analysis} (h : Runnable (ids ++ more)) : Runnable ids := by
  generalize hq : ids ++ more = whole at h
  induction h generalizing more with
  | nil => rw [(List.append_eq_nil_iff.mp hq).1]; exact .nil
  | @snoc whole a hwhole hnew hrequired ih =>
      rcases List.eq_nil_or_concat' more with rfl | ⟨more, d, rfl⟩
      · rw [List.append_nil] at hq
        exact hq ▸ hwhole.snoc hnew hrequired
      · rw [← List.append_assoc] at hq
        exact ih (List.append_inj' hq rfl).1

theorem notMem (h : Runnable (done ++ [a])) : a ∉ done := by
  intro ha
  exact List.disjoint_of_nodup_append h.nodup ha (by simp)

theorem mem_of_requires (h : Runnable (done ++ [a])) (hb : b ∈ done ++ [a]) {d : Analysis}
    (hd : b.Requires d) : d ∈ done := by
  obtain ⟨before, after, hids⟩ := List.append_of_mem hb
  have hlength := congrArg List.length hids
  simp only [List.length_append, List.length_cons, List.length_nil] at hlength
  have hbefore : before <+: done ++ [a] := ⟨b :: after, hids.symm⟩
  have hprefix : before <+: done :=
    List.prefix_of_prefix_length_le hbefore (List.prefix_append _ _) (by omega)
  exact hprefix.subset (h.mem_before_of_requires hids hd)

/-- What the last analysis requires comes before it. -/
theorem mem_of_last_requires (h : Runnable (done ++ [a])) (hb : b ∈ a.requires) : b ∈ done :=
  h.mem_of_requires (List.mem_append_right _ (List.mem_singleton_self a)) hb

end Plan.Runnable

namespace Manager

/-! ## The invariant -/

/-- What is stored when some analyses have run on a program. -/
structure Ran [Nesting] (p : Program) (done : List Analysis) (m : Manager) : Prop where
  hierarchy : m.program.hierarchy = p.hierarchy
  /-- Only building the call graph settles on an entry method. -/
  program : .cha ∉ done → m.program = p
  callGraph_isSome : m.callGraph.isSome = true ↔ .cha ∈ done
  /-- The call graph is that of some entry method. -/
  callGraph {cg : CallGraph} : m.callGraph = some cg → ∃ entry, cg = p.hierarchy.callGraph entry
  icfg_isSome : m.icfg.isSome = true ↔ .icfg ∈ done
  /-- The graph across methods joins them along the call graph. -/
  icfg {g : Icfg} {graphs : Graphs} : m.icfg = some (g, graphs) →
    ∃ cg, m.callGraph = some cg ∧ g = .ofCallGraph cg p.hierarchy.body?
  interConstants_isSome : m.interConstants.isSome = true ↔ .interConstprop ∈ done
  /-- The constants across methods are a solution on that graph. -/
  interConstants {s : Solution ProgramPoint Env} {graphs : Graphs} :
    m.interConstants = some (s, graphs) → ∃ g, m.icfg = some (g, graphs) ∧ InterConstants.solve g = .ok s
  /-- The methods that are analysed have the results of the method analyses. -/
  stored {a : Analysis} {id : MethodId} : a ∈ done → a.perMethod = true → id ∈ m.analysedMethods →
    (m.results id).has a = true
  /-- Nothing else is stored, but the control flow graphs that were joined. -/
  ran {a : Analysis} {id : MethodId} : (m.results id).has a = true →
    (p.hierarchy.body? id).isSome = true ∧ (a ∈ done ∨ a = .cfg ∧ .icfg ∈ done)
  consistent : m.Consistent

theorem ran_ofProgram [Nesting] (p : Program) : Ran p [] (ofProgram p) where
  hierarchy := rfl
  program _ := rfl
  callGraph_isSome := by simp [ofProgram]
  callGraph h := absurd h (by simp [ofProgram])
  icfg_isSome := by simp [ofProgram]
  icfg h := absurd h (by simp [ofProgram])
  interConstants_isSome := by simp [ofProgram]
  interConstants h := absurd h (by simp [ofProgram])
  stored ha := absurd ha (by simp)
  ran {a id} h := by
    have hnone : (ofProgram p).results id = .none := rfl
    rw [hnone] at h
    cases a <;> exact absurd h (by simp [MethodResults.has, MethodResults.none])
  consistent _ b _ := MethodResults.consistent_none b

/-- Methods that are analysed have a body. -/
theorem isSome_body?_of_mem_analysedMethods (hw : m.program.hierarchy.WellFormed)
    (hid : id ∈ m.analysedMethods) : (m.program.hierarchy.body? id).isSome = true := by
  unfold analysedMethods at hid
  split at hid
  · exact (List.mem_filter.mp hid).2
  · exact (Program.mem_methodsWithBody hw).mp hid

/-! ## Steps -/

/-- Of a method analysis and a program analysis one is not the other. -/
theorem mem_snoc_iff {x : Bool} (ha : a.perMethod = x) (hb : b.perMethod = !x) :
    a ∈ done ++ [b] ↔ a ∈ done := by
  have hne : a ≠ b := by
    rintro rfl
    exact Bool.not_ne_self x (hb.symm.trans ha)
  simp [hne]

/-- What was stored before a step is stored by what has run behind it. -/
theorem Ran.ran_snoc [Nesting] (h : Ran p done m) (hhas : (m.results id).has a = true) :
    (p.hierarchy.body? id).isSome = true ∧ (a ∈ done ++ [b] ∨ a = .cfg ∧ .icfg ∈ done ++ [b]) := by
  obtain ⟨hbody, hran⟩ := h.ran hhas
  exact ⟨hbody, hran.imp (List.mem_append_left _) (And.imp_right (List.mem_append_left _))⟩

theorem Ran.callGraph_eq_none [Nesting] (h : Ran p done m) (hcha : .cha ∉ done) : m.callGraph = none := by
  rw [← Option.not_isSome_iff_eq_none, h.callGraph_isSome]
  exact hcha

/-- Without a call graph all methods are analysed. -/
theorem Ran.analysedMethods_eq [Nesting] (h : Ran p done m) (hcha : .cha ∉ done) :
    m.analysedMethods = p.methodsWithBody := by
  rw [analysedMethods, h.callGraph_eq_none hcha, h.program hcha]

theorem Ran.icfg_eq_none [Nesting] (h : Ran p done m) (hcg : m.callGraph = none) : m.icfg = none := by
  refine Option.eq_none_iff_forall_ne_some.mpr ?_
  rintro ⟨g, graphs⟩ hg
  obtain ⟨cg, hsome, _⟩ := h.icfg hg
  exact absurd (hcg.symm.trans hsome) (by simp)

theorem Ran.interConstants_eq_none [Nesting] (h : Ran p done m) (hicfg : m.icfg = none) :
    m.interConstants = none := by
  refine Option.eq_none_iff_forall_ne_some.mpr ?_
  rintro ⟨s, graphs⟩ hs
  obtain ⟨g, hsome, _⟩ := h.interConstants hs
  exact absurd (hicfg.symm.trans hsome) (by simp)

theorem Ran.of_analysed [Nesting] (h : Ran p done m) (hw : p.hierarchy.WellFormed)
    (ha : a.perMethod = true) (hm : m.Analysed a m.analysedMethods m') : Ran p (done ++ [a]) m' where
  hierarchy := by rw [hm.program, h.hierarchy]
  program hcha := by rw [hm.program, h.program fun hmem => hcha (List.mem_append_left _ hmem)]
  callGraph_isSome := by
    rw [hm.callGraph, h.callGraph_isSome, mem_snoc_iff rfl ha]
  callGraph hcg := h.callGraph (hm.callGraph ▸ hcg)
  icfg_isSome := by
    rw [hm.icfg, h.icfg_isSome, mem_snoc_iff rfl ha]
  icfg hg := by
    rw [hm.callGraph]
    exact h.icfg (hm.icfg ▸ hg)
  interConstants_isSome := by
    rw [hm.interConstants, h.interConstants_isSome, mem_snoc_iff rfl ha]
  interConstants hs := by
    rw [hm.icfg]
    exact h.interConstants (hm.interConstants ▸ hs)
  stored {a' id} ha' hper hid := by
    have hsame : m'.analysedMethods = m.analysedMethods := by
      rw [analysedMethods, analysedMethods, hm.callGraph, hm.program]
    rw [hsame] at hid
    rw [hm.has_iff]
    rcases List.mem_append.mp ha' with ha' | ha'
    · exact Or.inl (h.stored ha' hper hid)
    · exact Or.inr ⟨List.mem_singleton.mp ha', hid⟩
  ran {a' id} hhas := by
    rcases hm.has_iff.mp hhas with hold | ⟨rfl, hid⟩
    · exact h.ran_snoc hold
    · have hbody := isSome_body?_of_mem_analysedMethods (h.hierarchy ▸ hw) hid
      exact ⟨h.hierarchy ▸ hbody, Or.inl (by simp)⟩
  consistent := hm.consistent

theorem Ran.of_callGraph [Nesting] {m₁ : Manager} {entry : MethodId} (h : Ran p done m)
    (hw : p.hierarchy.WellFormed) (hcha : .cha ∉ done) (hm : m.Settles m₁)
    (hcg : m' = { m₁ with callGraph := some (p.hierarchy.callGraph entry) }) :
    Ran p (done ++ [.cha]) m' := by
  have hall := h.analysedMethods_eq hcha
  have hnoicfg := h.icfg_eq_none (h.callGraph_eq_none hcha)
  have hresults : ∀ id, m'.results id = m.results id := by
    intro id
    rw [hcg, results, results, hm.methods]
  subst hcg
  exact {
    hierarchy := hm.hierarchy.trans h.hierarchy
    program := fun hmem => absurd (by simp) hmem
    callGraph_isSome := by simp
    callGraph := fun hcg => ⟨entry, (Option.some.inj hcg).symm⟩
    icfg_isSome := by simp [hm.icfg, h.icfg_isSome]
    icfg := fun hg => absurd (hm.icfg ▸ hg) (by simp [hnoicfg])
    interConstants_isSome := by simp [hm.interConstants, h.interConstants_isSome]
    interConstants := fun hs =>
      absurd (hm.interConstants ▸ hs) (by simp [h.interConstants_eq_none hnoicfg])
    stored := fun {a id} ha hper hid => by
      -- the methods that are analysed from now on were analysed before
      rw [hresults]
      obtain ⟨_, hbody⟩ := List.mem_filter.mp hid
      refine h.stored ((mem_snoc_iff hper rfl).mp ha) hper ?_
      rw [hall, Program.mem_methodsWithBody hw, ← h.hierarchy, ← hm.hierarchy]
      exact hbody
    ran := fun {a id} hhas => h.ran_snoc (hresults id ▸ hhas)
    consistent := fun id b hb => by
      rw [hresults]
      exact h.consistent id b (hm.hierarchy ▸ hb) }

theorem Ran.of_icfg [Nesting] {m₁ : Manager} {cg : CallGraph} {graphs : Graphs} (h : Ran p done m)
    (hicfg : .icfg ∉ done) (hcg : m.callGraph = some cg)
    (hm : m.Analysed .cfg (Icfg.ofCallGraph cg p.hierarchy.body?).methods m₁)
    (hm' : m' = { m₁ with icfg := some (.ofCallGraph cg p.hierarchy.body?, graphs) }) :
    Ran p (done ++ [.icfg]) m' := by
  have hsome : m'.callGraph = some cg := by rw [hm', ← hcg, ← hm.callGraph]
  have hnoicfg : m.icfg = none := by
    rw [← Option.not_isSome_iff_eq_none, h.icfg_isSome]
    exact hicfg
  have hnointer : m₁.interConstants = none :=
    hm.interConstants.trans (h.interConstants_eq_none hnoicfg)
  have hsame : m'.analysedMethods = m.analysedMethods := by
    rw [analysedMethods, analysedMethods, hsome, hcg, hm']
    simp only [hm.program]
  subst hm'
  exact {
    hierarchy := by rw [← h.hierarchy, ← hm.program]
    program := fun hmem =>
      hm.program.trans (h.program fun hcha => hmem (List.mem_append_left _ hcha))
    callGraph_isSome := by
      rw [hsome, ← hcg, h.callGraph_isSome]
      simp
    callGraph := fun hcg' => h.callGraph (hcg.trans (hsome.symm.trans hcg'))
    icfg_isSome := by simp
    icfg := fun hg => by
      cases hg
      exact ⟨cg, hsome, rfl⟩
    interConstants_isSome := by
      have hinter := h.interConstants_isSome
      rw [← hm.interConstants] at hinter
      simpa using hinter
    interConstants := fun hs => absurd hs (by simp [hnointer])
    stored := fun {a id} ha hper hid =>
      hm.has_iff.mpr (Or.inl (h.stored ((mem_snoc_iff hper rfl).mp ha) hper (hsame ▸ hid)))
    ran := fun {a id} hhas => by
      rcases hm.has_iff.mp hhas with hold | ⟨rfl, hid⟩
      · exact h.ran_snoc hold
      · obtain ⟨_, b, hb⟩ := Icfg.mem_methods_iff.mp hid
        exact ⟨by simp [hb], Or.inr ⟨rfl, by simp⟩⟩
    consistent := hm.consistent }

theorem Ran.of_interConstants [Nesting] {g : Icfg} {graphs : Graphs} {s : Solution ProgramPoint Env}
    (h : Ran p done m) (hg : m.icfg = some (g, graphs)) (hs : InterConstants.solve g = .ok s)
    (hm' : m' = { m with interConstants := some (s, graphs) }) :
    Ran p (done ++ [.interConstprop]) m' := by
  have hsame : m'.analysedMethods = m.analysedMethods := by rw [hm']; rfl
  subst hm'
  exact {
    hierarchy := h.hierarchy
    program := fun hmem => h.program fun hcha => hmem (List.mem_append_left _ hcha)
    callGraph_isSome := by simpa using h.callGraph_isSome
    callGraph := h.callGraph
    icfg_isSome := by simpa using h.icfg_isSome
    icfg := h.icfg
    interConstants_isSome := by simp
    interConstants := fun hs' => by
      cases hs'
      exact ⟨g, hg, hs⟩
    stored := fun {a id} ha hper hid =>
      h.stored ((mem_snoc_iff hper rfl).mp ha) hper (hsame ▸ hid)
    ran := h.ran_snoc
    consistent := h.consistent }

/-! ## Runs -/

/-- How an analysis of a plan can fail: a solver does not return, or the call graph cannot be built, and
then nothing is stored. -/
def Fails [Nesting] (h : Hierarchy) (c : AnalysisConfig) (m : Manager) (f : Failure) (m' : Manager) : Prop :=
  (∃ e, f = .solve e ∧ e.GivesUp) ∨ c.id = .cha ∧ m.Settles m' ∧ f.Halts h c

/-- A method analysis runs on the methods that are analysed. -/
theorem ensures_runOnMethods [Nesting] (hp : p.Parsed) (h : Ran p done m) (hrun : Runnable (done ++ [c.id]))
    (hc : c.Usable) (hper : c.id.perMethod = true) :
    Ensures (m.analysedMethods.forM (runOnMethod c)) m (fun _ m' => Ran p (done ++ [c.id]) m')
      (Fails p.hierarchy c m) := by
  have hw := hp.classes_wellFormed
  refine (ensures_forM_runOnMethod hper hc h.consistent ?_ ?_ ?_ ?_).imp ?_ ?_
  · intro id b hb
    exact hp.linked (h.hierarchy ▸ hb)
  · intro id hid
    exact isSome_body?_of_mem_analysedMethods (h.hierarchy ▸ hw) hid
  · intro id hid a ha
    exact h.stored (hrun.mem_of_last_requires ha) (Analysis.Requires.perMethod ha hper) hid
  · -- dead code detection comes behind what it rests on, and nothing runs twice
    intro id hdead
    have hdone : .deadcode ∈ done := by
      rcases (h.ran hdead).2 with hmem | ⟨hcfg, _⟩
      · exact hmem
      · exact absurd hcfg (by decide)
    have hnew : c.id ∉ done := hrun.notMem
    have hmem : ∀ d, Analysis.deadcode.Requires d → d ∈ done :=
      fun d hd => hrun.mem_of_requires (List.mem_append_left _ hdone) hd
    exact ⟨fun hid => hnew (hid ▸ hmem .constprop (by simp [Analysis.Requires, Analysis.requires])),
      fun hid => hnew (hid ▸ hmem .livevar (by simp [Analysis.Requires, Analysis.requires]))⟩
  · exact fun _ m' hm' => h.of_analysed hw hper hm'
  · exact fun f _ hf => Or.inl hf

theorem ensures_runIcfg [Nesting] (hp : p.Parsed) (h : Ran p done m) (hrun : Runnable (done ++ [.icfg])) :
    Ensures runIcfg m (fun _ m' => Ran p (done ++ [.icfg]) m')
      (fun f _ => ∃ e, f = .solve e ∧ e.GivesUp) := by
  have hcha : .cha ∈ done := hrun.mem_of_last_requires (by simp [Analysis.requires])
  obtain ⟨cg, hcg⟩ := Option.isSome_iff_exists.mp (h.callGraph_isSome.mpr hcha)
  unfold runIcfg
  simp only [ensures_bind, ensures_get, ensures_orMissing, hcg, Option.some.injEq, forall_eq',
    reduceCtorEq, false_implies, and_true, h.hierarchy]
  have hcode : ∀ id, m.program.hierarchy.body? id = p.hierarchy.body? id := by simp [h.hierarchy]
  -- to make the graphs is to run the analysis of control flow
  refine (ensures_forM_runOnMethod (c := ⟨.cfg, []⟩) rfl
    (AnalysisConfig.usable_of_options_eq_nil rfl) h.consistent ?_ ?_ ?_ ?_).imp ?_ fun _ _ hf => hf
  · exact fun id b hb => hp.linked (hcode id ▸ hb)
  · intro id hid
    obtain ⟨_, b, hb⟩ := Icfg.mem_methods_iff.mp hid
    simp [hcode, hb]
  · exact fun id _ a ha => absurd ha (by simp [Analysis.requires])
  · exact fun _ _ => ⟨by decide, by decide⟩
  · intro _ m₁ hm₁
    simp only [graphsOf, ensures_bind, ensures_get, ensures_pure, ensures_modify]
    exact h.of_icfg hrun.notMem hcg hm₁ rfl

theorem ensures_runInterConstants [Nesting] (h : Ran p done m)
    (hrun : Runnable (done ++ [.interConstprop])) :
    Ensures runInterConstants m (fun _ m' => Ran p (done ++ [.interConstprop]) m')
      (fun f _ => ∃ e, f = .solve e ∧ e.GivesUp) := by
  have hicfg : .icfg ∈ done := hrun.mem_of_last_requires (by simp [Analysis.requires])
  obtain ⟨⟨g, graphs⟩, hg⟩ := Option.isSome_iff_exists.mp (h.icfg_isSome.mpr hicfg)
  unfold runInterConstants
  simp only [ensures_bind, ensures_get, ensures_orMissing, ensures_orFail, ensures_modify, hg,
    Option.some.injEq, forall_eq', reduceCtorEq, false_implies, and_true]
  exact ⟨fun s hs => h.of_interConstants hg hs (by rw [hg]),
    fun e he => ⟨e, rfl, InterConstants.givesUp_of_solve he⟩⟩

/-- **One more analysis of a plan.** -/
theorem ensures_runAnalysis [Nesting] (hp : p.Parsed) (h : Ran p done m) (hrun : Runnable (done ++ [c.id]))
    (hc : c.Usable) :
    Ensures (runAnalysis c) m (fun _ m' => Ran p (done ++ [c.id]) m') (Fails p.hierarchy c m) := by
  have hw := hp.classes_wellFormed
  have hsolve : ∀ f m', (∃ e, f = .solve e ∧ e.GivesUp) → Fails p.hierarchy c m f m' :=
    fun _ _ hf => Or.inl hf
  cases hid : c.id with
  | cha =>
      rw [hid] at hrun
      have hcha : .cha ∉ done := hrun.notMem
      have hprogram := h.program hcha
      simp only [runAnalysis, hid]
      refine (ensures_runCallGraph (by rwa [hprogram]) ?_ fun v => hc.entry hid).imp ?_ ?_
      · intro main hmain
        rw [hprogram] at hmain ⊢
        exact hp.exists_declared_of_main hmain
      · rintro _ m' ⟨m₁, entry, hsettles, rfl⟩
        rw [hprogram]
        exact h.of_callGraph hw hcha hsettles rfl
      · rintro f m' ⟨hsettles, hf⟩
        exact Or.inr ⟨hid, hsettles, hprogram ▸ hf⟩
  | icfg =>
      rw [hid] at hrun
      simp only [runAnalysis, hid]
      exact (ensures_runIcfg hp h hrun).imp (fun _ _ hm' => hm') hsolve
  | interConstprop =>
      rw [hid] at hrun
      simp only [runAnalysis, hid]
      exact (ensures_runInterConstants h hrun).imp (fun _ _ hm' => hm') hsolve
  | _ =>
      have hmethods := ensures_runOnMethods hp h hrun hc (by rw [hid]; rfl)
      simp only [runAnalysis, hid, ensures_bind, ensures_get]
      rwa [hid] at hmethods

/-- The run of a plan goes on with its last analysis. -/
theorem outcome_runPlan_snoc [Nesting] {before : List AnalysisConfig} {m₀ : Manager}
    (hbefore : outcome (runPlan ⟨before⟩) m₀ = (.ok (), m))
    (hlast : outcome (runAnalysis c) m = (.ok (), m')) :
    outcome (runPlan ⟨before ++ [c]⟩) m₀ = (.ok (), m') := by
  have hsnoc : runPlan ⟨before ++ [c]⟩ = runPlan ⟨before⟩ >>= fun _ => runAnalysis c := by
    simp [runPlan, List.forM_eq_forM, List.forM_append]
  rw [hsnoc, outcome_bind, hbefore]
  exact hlast

/-- A run of a plan fails at an analysis: a solver does not return, or it is the call graph that cannot be
built. Behind what runs before nothing is stored then. -/
def StopsAt [Nesting] (p : Program) (plan : Plan) (f : Failure) (m : Manager) : Prop :=
  (∃ e, f = .solve e ∧ e.GivesUp) ∨
    ∃ before c after m₁, plan.configs = before ++ c :: after ∧ c.id = .cha ∧ f.Halts p.hierarchy c ∧
      outcome (runPlan ⟨before⟩) (ofProgram p) = (.ok (), m₁) ∧
      Ran p (Plan.mk before).ids m₁ ∧ m₁.Settles m

/-- **A run of a plan stores what it asks for**, up to where it fails. -/
theorem ensures_runPlan [Nesting] (hp : p.Parsed) {plan : Plan} (hrun : Runnable plan.ids)
    (husable : ∀ c ∈ plan.configs, c.Usable) :
    Ensures (runPlan plan) (ofProgram p) (fun _ m => Ran p plan.ids m) (StopsAt p plan) := by
  have hloop : Ensures (runPlan plan) (ofProgram p)
      (fun _ m => Ran p plan.ids m ∧ outcome (runPlan plan) (ofProgram p) = (.ok (), m))
      (StopsAt p plan) := by
    refine ensures_forM (P := fun before m => Ran p (Plan.mk before).ids m ∧
      outcome (runPlan ⟨before⟩) (ofProgram p) = (.ok (), m)) ⟨ran_ofProgram p, rfl⟩ ?_
    rintro before c after m hsplit ⟨hran, hbefore⟩
    have hids : plan.ids = (Plan.mk before).ids ++ [c.id] ++ (Plan.mk after).ids := by
      simp [Plan.ids, hsplit]
    have hc : c ∈ plan.configs := by simp [hsplit]
    have hstep := ensures_runAnalysis hp hran (hids ▸ hrun).of_append (husable c hc)
    refine hstep.and_outcome.imp ?_ ?_
    · rintro _ m' ⟨hran', hlast⟩
      refine ⟨?_, outcome_runPlan_snoc hbefore hlast⟩
      rwa [Plan.ids, List.map_append]
    · rintro f m' (hf | ⟨hcha, hsettles, hf⟩)
      · exact Or.inl hf
      · exact Or.inr ⟨before, c, after, m, hsplit, hcha, hf, hbefore, hran, hsettles⟩
  exact hloop.imp (fun _ _ h => h.1) fun _ _ h => h

end Manager

end TacFlow
