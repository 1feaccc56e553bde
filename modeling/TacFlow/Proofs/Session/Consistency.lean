import TacFlow.Proofs.Calls.FixedPoint
import TacFlow.Proofs.Liveness.Equations
import TacFlow.Proofs.Session.Entry
import TacFlow.Proofs.Session.Plan

/-!
# Method analyses over many methods

A method analysis runs on one method after the other. Each time it stores its own result and leaves the
others as they are, so behind the loop just the methods that it ran on have that result, and the results
of every method still rest on its code and on each other. The one way to fail is that a solver does not
return.
-/

namespace TacFlow

open Plan (Runnable)

/-! ## Configurations -/

/-- The options of a configuration can be used: the solver is one of the solvers if it is named, and the
entry is a text. -/
structure AnalysisConfig.Usable (c : AnalysisConfig) : Prop where
  solver {name : String} : c.text? "solver" = some name → ∃ kind, SolverKind.ofName? name = some kind
  entry {v : Json} : c.id = .cha → c.get? "entry" = some v → ∃ s, v = .str s

theorem Json.Str.text?_ofString (s : String) : (Json.Str.ofString s).text? = some s := by
  have hchars : ∀ cs : List Char, (cs.map Json.Symbol.char).mapM Json.Symbol.char? = some cs := by
    intro cs
    induction cs with
    | nil => rfl
    | cons c cs ih => simp [List.mapM_cons, ih, Json.Symbol.char?]
  rw [text?, ofString, hchars, Option.map_some, String.ofList_toList]

/-- Options that pass the check can be used. -/
theorem AnalysisConfig.usable_of_check {c : AnalysisConfig} (hc : check c.id c.options = .ok c)
    (hentry : ∀ v, c.id = .cha → c.get? "entry" = some v → ∃ s, v = .str s) : c.Usable := by
  refine ⟨fun {name} hname => ?_, fun {v} => hentry v⟩
  have hsolver : isSolver ((c.get? "solver").getD .null) = true := by
    by_contra hnot
    have hnot' : isSolver ((Json.member? c.options "solver").getD .null) = false :=
      Bool.eq_false_iff.mpr hnot
    simp only [check, hnot', Bool.not_false, if_true] at hc
    split at hc <;> exact absurd hc (by simp)
  unfold text? at hname
  split at hname
  · rename_i s hs
    rw [hs, Option.getD_some, isSolver, List.any_eq_true] at hsolver
    obtain ⟨known, hknown, hs'⟩ := hsolver
    obtain rfl := of_decide_eq_true hs'
    rw [Json.Str.text?_ofString] at hname
    obtain rfl := Option.some.inj hname
    obtain rfl | rfl : known = "worklist" ∨ known = "iterative" := by simpa [solvers] using hknown
    · exact ⟨.worklist, rfl⟩
    · exact ⟨.iterative, rfl⟩
  · exact absurd hname (by simp)

theorem AnalysisConfig.usable_of_options_eq_nil {c : AnalysisConfig} (hc : c.options = []) :
    c.Usable := by
  have hnone : ∀ option, c.get? option = none := fun option => by simp [get?, hc, Json.member?]
  exact ⟨fun h => absurd h (by simp [text?, hnone]), fun _ h => absurd h (by simp [hnone])⟩

/-- The configurations of a plan are those that were given, or have no options. -/
theorem Plan.Built.mem_configs {given : List AnalysisConfig} {plan : Plan} (h : Built given plan)
    {c : AnalysisConfig} (hc : c ∈ plan.configs) : c ∈ given ∨ c.options = [] := by
  have hput : ∀ (q : Plan) (d : AnalysisConfig), (d ∈ given ∨ d.options = []) →
      (∀ c ∈ q.configs, c ∈ given ∨ c.options = []) →
      ∀ c ∈ (q.put d).configs, c ∈ given ∨ c.options = [] := by
    intro q d hd hq c hc
    unfold put at hc
    split at hc
    · obtain ⟨k, hk, rfl⟩ := List.mem_map.mp hc
      split
      · exact hd
      · exact hq k hk
    · rcases List.mem_append.mp hc with hc | hc
      · exact hq c hc
      · exact List.mem_singleton.mp hc ▸ hd
  rw [h.eq_ofConfigs, Plan.ofConfigs] at hc
  refine List.foldlRecOn (motive := fun q : Plan => ∀ c ∈ q.configs, c ∈ given ∨ c.options = [])
    given Plan.add (by simp [empty]) ?_ c hc
  intro q hq d hd
  refine hput _ d (Or.inl hd) ?_
  -- what is required comes without options
  refine List.foldlRecOn (motive := fun q : Plan => ∀ c ∈ q.configs, c ∈ given ∨ c.options = [])
    _ require hq ?_
  intro q hq a _
  unfold require
  split
  · exact hq
  · exact hput q ⟨a, []⟩ (Or.inr rfl) hq

/-! ## Solvers -/

/-- A solver does not return: it goes on for ever, or it stops at a type that is nested too deep. -/
def SolveError.GivesUp (e : SolveError) : Prop :=
  e = .unfinished ∨ e = .tooDeep

theorem eq_unfinished_of_finished {α : Type} {o : Option α} {e : SolveError}
    (h : finished o = .error e) : e = .unfinished := by
  cases o with
  | none => cases h; rfl
  | some a => exact absurd h (by simp [finished])

/-- On a body whose jumps have their targets a solver returns or gives up. -/
theorem Constants.givesUp_of_solve [Nesting] {b : Body} (hb : b.Linked) {name : Option String}
    {e : SolveError} (hname : ∀ n, name = some n → ∃ kind, SolverKind.ofName? n = some kind)
    (h : solve (.ofBody b) name = .error e) : e.GivesUp := by
  have hwith : ∀ {kind}, solveWith (.ofBody b) kind = .error e → e.GivesUp := by
    intro kind h
    have hloose : (Cfg.ofBody b).body.looseJumps = [] := hb.looseJumps_eq_nil
    simp only [solveWith, hloose, List.find?_nil] at h
    split at h
    · cases h; exact Or.inr rfl
    · cases hs : finished (solveWithin (.ofBody b) kind visitLimit) with
      | error e' =>
          rw [hs] at h
          cases h
          exact Or.inl (eq_unfinished_of_finished hs)
      | ok s => rw [hs] at h; exact absurd h (by simp [bind, Except.bind])
  unfold solve at h
  split at h
  · exact hwith h
  · rename_i n
    obtain ⟨kind, hkind⟩ := hname n rfl
    rw [hkind] at h
    exact hwith h

theorem Liveness.givesUp_of_solve {b : Body} (hb : b.Linked) {e : SolveError}
    (h : solve (.ofBody b) none = .error e) : e.GivesUp := by
  have hloose : (Cfg.ofBody b).body.looseJumps = [] := hb.looseJumps_eq_nil
  simp only [solve, sweep, hloose] at h
  exact Or.inl (eq_unfinished_of_finished h)

theorem InterConstants.givesUp_of_solve [Nesting] {g : Icfg} {e : SolveError} (h : solve g = .error e) :
    e.GivesUp := by
  unfold solve at h
  split at h
  · exact Or.inl (eq_unfinished_of_finished h)
  · cases h; exact Or.inr rfl

/-! ## Results that rest on each other -/

/-- The results of a method rest on its code: solvers returned the solutions, and the dead statements are
those by the solutions that are stored. -/
structure MethodResults.Consistent (b : Body) (r : MethodResults) : Prop where
  constants {s : Solution Point Env} : r.constants = some s →
    ∃ solver, Constants.Returns (.ofBody b) solver s
  live {s : Solution Point (FinSet Var)} : r.live = some s → Liveness.Returns (.ofBody b) s
  dead {d : List Nat} : r.dead = some d → ∃ cs lv, r.constants = some cs ∧ r.live = some lv ∧
    d = DeadCode.ofSolutions (.ofBody b) cs lv

theorem MethodResults.consistent_none (b : Body) : MethodResults.none.Consistent b :=
  ⟨fun h => absurd h (by simp [none]), fun h => absurd h (by simp [none]),
    fun h => absurd h (by simp [none])⟩

namespace Manager

variable {m m' : Manager} {c : AnalysisConfig} {b : Body} {r r' : MethodResults} {a : Analysis}
  {id : MethodId} {ids : List MethodId}

/-- What is stored is a result of the analysis, and the other results stay. -/
theorem Stores.has_iff [Nesting] (h : Stores c b r r') (hc : c.id.perMethod = true) :
    r'.has a = true ↔ r.has a = true ∨ a = c.id := by
  unfold Stores at h
  cases hid : c.id with
  | cfg =>
      rw [hid] at h
      obtain ⟨n, rfl, _⟩ := h
      cases a <;> simp [MethodResults.has]
  | constprop =>
      rw [hid] at h
      obtain ⟨s, _, rfl⟩ := h
      cases a <;> simp [MethodResults.has]
  | livevar =>
      rw [hid] at h
      obtain ⟨s, _, rfl⟩ := h
      cases a <;> simp [MethodResults.has]
  | deadcode =>
      rw [hid] at h
      obtain ⟨cs, lv, _, _, rfl⟩ := h
      cases a <;> simp [MethodResults.has]
  | _ => exact absurd hc (by simp [hid, Analysis.perMethod])

/-- The results stay consistent, unless a solution is replaced that dead code rests on. -/
theorem Stores.consistent [Nesting] (h : Stores c b r r') (hr : r.Consistent b)
    (hdead : r.has .deadcode = true → c.id ≠ .constprop ∧ c.id ≠ .livevar) : r'.Consistent b := by
  have hnone : c.id = .constprop ∨ c.id = .livevar → r.dead = none := by
    intro hid
    by_contra hne
    have hsome : r.has .deadcode = true := Option.isSome_iff_ne_none.mpr hne
    exact hid.elim (hdead hsome).1 (hdead hsome).2
  unfold Stores at h
  split at h
  · rename_i hid
    obtain ⟨s, hs, rfl⟩ := h
    refine ⟨?_, hr.live, fun hd => absurd hd (by simp [hnone (Or.inl hid)])⟩
    rintro _ ⟨⟩
    exact Constants.returns_of_solve hs
  · rename_i hid
    obtain ⟨s, hs, rfl⟩ := h
    refine ⟨hr.constants, ?_, fun hd => absurd hd (by simp [hnone (Or.inr hid)])⟩
    rintro _ ⟨⟩
    exact Liveness.returns_of_solve hs
  · obtain ⟨cs, lv, hcs, hlv, rfl⟩ := h
    refine ⟨hr.constants, hr.live, ?_⟩
    rintro _ ⟨⟩
    exact ⟨cs, lv, hcs, hlv, rfl⟩
  · obtain ⟨n, rfl, _⟩ := h
    exact ⟨hr.constants, hr.live, hr.dead⟩

/-- Every method has consistent results. -/
def Consistent (m : Manager) : Prop :=
  ∀ id b, m.program.hierarchy.body? id = some b → (m.results id).Consistent b

/-- A method analysis has run on some methods: they have its result now, and that is all that is
new. -/
structure Analysed (a : Analysis) (ids : List MethodId) (m m' : Manager) : Prop where
  program : m'.program = m.program
  callGraph : m'.callGraph = m.callGraph
  icfg : m'.icfg = m.icfg
  interConstants : m'.interConstants = m.interConstants
  has_iff {id : MethodId} {a' : Analysis} : (m'.results id).has a' = true ↔
    (m.results id).has a' = true ∨ a' = a ∧ id ∈ ids
  consistent : m'.Consistent

theorem analysed_nil (hm : m.Consistent) : m.Analysed a [] m :=
  ⟨rfl, rfl, rfl, rfl, by simp, hm⟩

/-- One more method. -/
theorem Analysed.snoc [Nesting] {m₁ : Manager} (h : m.Analysed c.id ids m₁) (hc : c.id.perMethod = true)
    (hb : m.program.hierarchy.body? id = some b) (htouches : m₁.Touches id m')
    (hstores : Stores c b (m₁.results id) (m'.results id))
    (hdead : (m₁.results id).has .deadcode = true → c.id ≠ .constprop ∧ c.id ≠ .livevar) :
    m.Analysed c.id (ids ++ [id]) m' where
  program := htouches.program.trans h.program
  callGraph := htouches.callGraph.trans h.callGraph
  icfg := htouches.icfg.trans h.icfg
  interConstants := htouches.interConstants.trans h.interConstants
  has_iff {j a'} := by
    by_cases hj : j = id
    · subst hj
      rw [hstores.has_iff hc, h.has_iff]
      grind
    · rw [htouches.results hj, h.has_iff]
      simp [hj]
  consistent j b' hb' := by
    rw [htouches.program, h.program] at hb'
    have hj' := h.consistent j b' (h.program ▸ hb')
    by_cases hj : j = id
    · subst hj
      obtain rfl := Option.some.inj (hb'.symm.trans hb)
      exact hstores.consistent hj' hdead
    · rwa [htouches.results hj]

/-- **A method analysis runs on all methods that it is to run on**, or a solver does not return. -/
theorem ensures_forM_runOnMethod [Nesting] (hc : c.id.perMethod = true) (husable : c.Usable)
    (hm : m.Consistent)
    (hlinked : ∀ id b, m.program.hierarchy.body? id = some b → b.Linked)
    (hbody : ∀ id ∈ ids, (m.program.hierarchy.body? id).isSome = true)
    (hrequired : ∀ id ∈ ids, ∀ a ∈ c.id.requires, (m.results id).has a = true)
    (hdead : ∀ id, (m.results id).has .deadcode = true → c.id ≠ .constprop ∧ c.id ≠ .livevar) :
    Ensures (ids.forM (runOnMethod c)) m (fun _ m' => m.Analysed c.id ids m')
      (fun f _ => ∃ e, f = .solve e ∧ e.GivesUp) := by
  refine ensures_forM (P := fun before m' => m.Analysed c.id before m') (analysed_nil hm) ?_
  intro before id after m' hsplit hbefore
  have hid : id ∈ ids := by simp [hsplit]
  obtain ⟨b, hb⟩ := Option.isSome_iff_exists.mp (hbody id hid)
  have hb' : m'.program.hierarchy.body? id = some b := by rw [hbefore.program, hb]
  refine (ensures_runOnMethod hb' fun a ha => ?_).imp ?_ ?_
  · exact hbefore.has_iff.mpr (Or.inl (hrequired id hid a ha))
  · rintro _ m'' ⟨htouches, hstores⟩
    refine hbefore.snoc hc hb htouches hstores fun hd => ?_
    rcases hbefore.has_iff.mp hd with hd | ⟨hd, _⟩
    · exact hdead id hd
    · simp [← hd]
  · rintro f _ ⟨e, rfl, he⟩
    refine ⟨e, rfl, ?_⟩
    rcases he with he | he
    · exact Constants.givesUp_of_solve (hlinked id b hb) (fun _ => husable.solver) he
    · exact Liveness.givesUp_of_solve (hlinked id b hb) he

end Manager

end TacFlow
