import TacFlow.Proofs.Session.Reporting

/-!
# Runs end complete, or at the call graph

What a run of a plan leaves, however it ends: all that the plan asks for and a report on any part of it,
or, if the call graph cannot be built, just what stands before the call graph in the plan.
-/

namespace TacFlow.Manager

open Plan (Built Runnable)

variable {p : Program} {plan : Plan} {given before after : List AnalysisConfig} {m m' : Manager}
  {c : AnalysisConfig} {f : Failure}

/-- All that a plan asks for is stored and fits together. -/
structure Complete (p : Program) (plan : Plan) (m : Manager) : Prop where
  /-- Method analyses have their results on all methods that are analysed now. -/
  stored {a : Analysis} {id : MethodId} : a ∈ plan.ids → a.perMethod = true →
    id ∈ m.analysedMethods → (m.results id).has a = true
  /-- Program analyses have their results. -/
  finished {a : Analysis} : a ∈ plan.ids → a.perMethod = false → a ∈ m.finishedAnalyses
  /-- The results on a method rest on its code and on each other. -/
  consistent : m.Consistent
  /-- The graph across methods is built over the call graph. -/
  icfg {g : Icfg} {graphs : Graphs} : m.icfg = some (g, graphs) →
    ∃ cg, m.callGraph = some cg ∧ g = .ofCallGraph cg p.hierarchy.body?
  /-- The constants across methods have both facts at every node of that graph. -/
  interConstants {s : Solution ProgramPoint Env} {graphs : Graphs} :
    m.interConstants = some (s, graphs) → ∃ g, m.icfg = some (g, graphs) ∧
      ∀ n ∈ g.nodes, (s.before.get? n).isSome = true ∧ (s.after.get? n).isSome = true
  /-- Whatever of the plan is asked for is reported. -/
  report {requested : List Analysis} (draw : Bool) : (∀ a ∈ requested, a ∈ plan.ids) →
    ∃ text, m.report requested draw = .ok text

/-- Just what the analyses before the call graph make is stored, which cannot be built itself. -/
structure Stopped [Nesting] (p : Program) (before : List AnalysisConfig) (c : AnalysisConfig) (f : Failure)
    (m : Manager) : Prop where
  isCallGraph : c.id = .cha
  halts : f.Halts p.hierarchy c
  /-- Everything is as behind a run of the analyses before. -/
  behind : ∃ m', outcome (runPlan ⟨before⟩) (ofProgram p) = (.ok (), m') ∧ m'.Settles m
  /-- No program analysis has a result. -/
  finished : m.finishedAnalyses = []
  /-- Every method with a body has the results of the analyses before, and no others. -/
  stored {a : Analysis} {id : MethodId} : (m.results id).has a = true ↔
    a ∈ (Plan.mk before).ids ∧ id ∈ p.methodsWithBody

theorem Ran.complete [Nesting] (h : Ran p plan.ids m) (hp : p.Parsed) : Complete p plan m where
  stored := h.stored
  finished {a} ha hper := by
    cases a with
    | cha => simp [finishedAnalyses, h.callGraph_isSome.mpr ha]
    | icfg => simp [finishedAnalyses, h.icfg_isSome.mpr ha]
    | interConstprop => simp [finishedAnalyses, h.interConstants_isSome.mpr ha]
    | _ => exact absurd hper (by simp [Analysis.perMethod])
  consistent := h.consistent
  icfg := h.icfg
  interConstants {s graphs} hs := by
    obtain ⟨g, hg, hsolve⟩ := h.interConstants hs
    obtain ⟨cg, _, rfl⟩ := h.icfg hg
    have hreturns := InterConstants.returns_of_solve hsolve
    exact ⟨_, hg, fun n hn => InterConstants.isSome_of_returns (fun _ _ => hp.linked) hreturns hn⟩
  report draw hrequested := h.exists_report hp hrequested draw

/-- Only method analyses stand before the call graph, and they have run on all methods. -/
theorem Ran.stopped [Nesting] (h : Ran p (Plan.mk before).ids m) (hp : p.Parsed)
    (hrun : Runnable ((Plan.mk before).ids ++ [c.id])) (hc : c.id = .cha) (hf : f.Halts p.hierarchy c)
    (hbefore : outcome (runPlan ⟨before⟩) (ofProgram p) = (.ok (), m)) (hm : m.Settles m') :
    Stopped p before c f m' := by
  rw [hc] at hrun
  have hcha : .cha ∉ (Plan.mk before).ids := hrun.notMem
  have hcg := h.callGraph_eq_none hcha
  have hicfg := h.icfg_eq_none hcg
  have hinter := h.interConstants_eq_none hicfg
  refine ⟨hc, hf, ⟨m, hbefore, hm⟩, ?_, fun {a id} => ?_⟩
  · simp [finishedAnalyses, hm.callGraph, hm.icfg, hm.interConstants, hcg, hicfg, hinter]
  · have hresults : m'.results id = m.results id := by rw [results, results, hm.methods]
    rw [hresults]
    constructor
    · intro hhas
      obtain ⟨hbody, hdone | ⟨_, hjoined⟩⟩ := h.ran hhas
      · exact ⟨hdone, (Program.mem_methodsWithBody hp.classes_wellFormed).mpr hbody⟩
      · exact absurd (h.icfg_isSome.mpr hjoined) (by simp [hicfg])
    · rintro ⟨ha, hid⟩
      have hper : a.perMethod = true := by
        cases a with
        | cha => exact absurd ha hcha
        | icfg => exact absurd (h.icfg_isSome.mpr ha) (by simp [hicfg])
        | interConstprop => exact absurd (h.interConstants_isSome.mpr ha) (by simp [hinter])
        | _ => rfl
      exact h.stored ha hper (h.analysedMethods_eq hcha ▸ hid)

/-- **A run of a plan ends complete, or at the call graph**, unless a solver does not return. The call graph
is refused its entry method, or it meets a type that is nested too deep. -/
theorem complete_or_stopped_of_built [Nesting] (hp : p.Parsed) (hbuilt : Built given plan)
    (hgiven : ∀ c ∈ given, AnalysisConfig.check c.id c.options = .ok c)
    (hentry : ∀ c ∈ plan.configs, c.id = .cha → ∀ v, c.get? "entry" = some v → ∃ s, v = .str s)
    (hreturn : ∀ e : SolveError, e.GivesUp →
      (outcome (runPlan plan) (ofProgram p)).1 ≠ .error (.solve e)) :
    (∃ m, outcome (runPlan plan) (ofProgram p) = (.ok (), m) ∧ Complete p plan m) ∨
      ∃ f m before c after, outcome (runPlan plan) (ofProgram p) = (.error f, m) ∧
        plan.configs = before ++ c :: after ∧ Stopped p before c f m := by
  have hrun : Runnable plan.ids :=
    hbuilt.eq_ofConfigs ▸ Runnable.foldl_add (p := .empty) .nil given
  have husable : ∀ c ∈ plan.configs, c.Usable := by
    intro c hc
    rcases hbuilt.mem_configs hc with hmem | hnil
    · exact AnalysisConfig.usable_of_check (hgiven c hmem) fun v hid => hentry c hc hid v
    · exact AnalysisConfig.usable_of_options_eq_nil hnil
  rcases (ensures_runPlan hp hrun husable).cases with ⟨_, m, hout, hran⟩ | ⟨f, m, hout, hstops⟩
  · exact Or.inl ⟨m, hout, hran.complete hp⟩
  · rcases hstops with ⟨e, rfl, he⟩ | ⟨before, c, after, m', hsplit, hc, hf, hbefore, hran, hm⟩
    · exact absurd (congrArg Prod.fst hout) (hreturn e he)
    · have hids : plan.ids = (Plan.mk before).ids ++ [c.id] ++ (Plan.mk after).ids := by
        simp [Plan.ids, hsplit]
      have hstopped := hran.stopped hp (hids ▸ hrun).of_append hc hf hbefore hm
      exact Or.inr ⟨f, m, before, c, after, hout, hsplit, hstopped⟩

/-- Dead code in all methods, and then the constants across the reachable ones. -/
def deadCodeAndConstants : Plan :=
  .ofConfigs [⟨.deadcode, []⟩, ⟨.interConstprop, []⟩]

/-- On a method that calls itself such a plan completes. -/
theorem complete_or_stopped_of_built_recursion :
    ∃ m, outcome (runPlan deadCodeAndConstants) (ofProgram Recursion.program) = (.ok (), m) ∧
      Complete Recursion.program deadCodeAndConstants m := by
  have hgiven : ∀ c ∈ [⟨.deadcode, []⟩, ⟨.interConstprop, []⟩],
      AnalysisConfig.check c.id c.options = .ok c := by
    rintro c (_ | ⟨_, _ | ⟨_, ⟨⟩⟩⟩) <;> rfl
  have hentry : ∀ c ∈ deadCodeAndConstants.configs, c.get? "entry" = none := by decide +kernel
  have hok : (outcome (runPlan deadCodeAndConstants) (ofProgram Recursion.program)).1.isOk = true := by
    decide +kernel
  have hends : ∀ f, (outcome (runPlan deadCodeAndConstants) (ofProgram Recursion.program)).1 ≠
      .error f := by
    intro f hf
    rw [hf] at hok
    exact absurd hok (by simp [Except.isOk, Except.toBool])
  rcases complete_or_stopped_of_built Recursion.parsed_program (.ofConfigs _) hgiven
    (fun c hc _ v hv => absurd (hv.symm.trans (hentry c hc)) (by simp))
    (fun e _ => hends (.solve e)) with hdone | ⟨f, m, _, _, _, hout, _⟩
  · exact hdone
  · exact absurd (congrArg Prod.fst hout) (hends f)

/-- The call graph from a method that is named. -/
def callGraphFrom (entry : String) : AnalysisConfig :=
  ⟨.cha, [(.ofString "entry", .str (.ofString entry))]⟩

/-- The signature `<M: void main(int[]...[])>` with a thousand dimensions. -/
def deepEntry : String :=
  .ofList ("<M: void main(int".toList ++ (List.replicate 1000 ['[', ']']).flatten ++ ")>".toList)

/-- An entry that cannot be read because a type in it is nested too deep stops a run as well. -/
theorem outcome_runPlan_callGraphFrom [Nesting] {t : String}
    (hread : MethodId.read t.toList = .error .tooDeep) :
    outcome (runPlan (.ofConfigs [callGraphFrom t])) m =
      (.error (.program (.malformed .tooDeep)), m) := by
  have hne : (Json.Str.ofString t).isEmpty = false := by
    cases ht : t.toList with
    | nil =>
        rw [ht] at hread
        cases hread
    | cons x rest => simp [Json.Str.ofString, Json.Str.isEmpty, ht]
  have hends : Ensures (runPlan (.ofConfigs [callGraphFrom t])) m (fun _ _ => False)
      (fun f m' => f = .program (.malformed .tooDeep) ∧ m' = m) := by
    have hplan : Plan.ofConfigs [callGraphFrom t] = ⟨[callGraphFrom t]⟩ := rfl
    have hentry : (callGraphFrom t).get? "entry" = some (.str (.ofString t)) := rfl
    have hid : (callGraphFrom t).id = .cha := rfl
    simp [hplan, runPlan, runAnalysis, hid, runCallGraph, chosenEntry, hentry, Json.isVoid, hne,
      Json.Str.text?_ofString, method, Hierarchy.resolve, hread]
  rcases hends.cases with ⟨_, _, _, hnever⟩ | ⟨f, m', hout, rfl, rfl⟩
  · exact hnever.elim
  · exact hout

/-- With a thousand dimensions the entry `<M: void main(int[]...[])>` cannot be read, and so it is not
refused as one that no method has. -/
theorem exists_not_refusesEntry_deep :
    Recursion.program.Parsed ∧ Built [callGraphFrom deepEntry] (.ofConfigs [callGraphFrom deepEntry]) ∧
      AnalysisConfig.check .cha (callGraphFrom deepEntry).options = .ok (callGraphFrom deepEntry) ∧
      (callGraphFrom deepEntry).get? "entry" = some (.str (.ofString deepEntry)) ∧
      ∃ f m, outcome (runPlan (.ofConfigs [callGraphFrom deepEntry])) (ofProgram Recursion.program) =
          (.error f, m) ∧ ¬ f.RefusesEntry ∧ ∀ e, f ≠ .solve e := by
  have hchecked : ∀ t, AnalysisConfig.check .cha (callGraphFrom t).options = .ok (callGraphFrom t) ∧
      (callGraphFrom t).get? "entry" = some (.str (.ofString t)) := fun _ => ⟨rfl, rfl⟩
  have hread : MethodId.read deepEntry.toList = .error .tooDeep := by
    have htext : deepEntry.toList = _ := String.toList_ofList
    rw [htext]
    decide +kernel
  have hrefused : ¬ (Failure.program (.malformed .tooDeep)).RefusesEntry := by
    rintro ⟨hwritable⟩
    exact absurd hwritable (by decide)
  exact ⟨Recursion.parsed_program, .ofConfigs _, (hchecked _).1, (hchecked _).2, _, _,
    outcome_runPlan_callGraphFrom hread, hrefused, by simp⟩

end TacFlow.Manager
