import TacFlow.Session.Manager

/-!
# What computations of a manager do

`Ensures` tells with what a computation ends: with a value and a manager of one kind, or with a failure
and a manager of another.
-/

namespace TacFlow.Manager

variable {α β ε : Type} {m : Manager} {x : Run α} {k : α → Run β} {f : Failure}

/-- What a computation ends with, and the manager that it leaves. -/
def outcome (x : Run α) (m : Manager) : Except Failure α × Manager :=
  x.run.run m

theorem outcome_bind (x : Run α) (k : α → Run β) (m : Manager) :
    outcome (x >>= k) m = match outcome x m with
      | (.ok a, m') => outcome (k a) m'
      | (.error f, m') => (.error f, m') := by
  unfold outcome
  rw [ExceptT.run_bind, StateT.run_bind]
  rcases x.run.run m with ⟨f | a, m'⟩ <;> rfl

/-- A computation ends with a value and a manager for which `done` holds, or with a failure and a
manager for which `failed` does. -/
def Ensures (x : Run α) (m : Manager) (done : α → Manager → Prop)
    (failed : Failure → Manager → Prop) : Prop :=
  match outcome x m with
  | (.ok a, m') => done a m'
  | (.error f, m') => failed f m'

section

variable {done done' : α → Manager → Prop} {failed failed' : Failure → Manager → Prop}

@[simp] theorem ensures_pure {a : α} : Ensures (pure a) m done failed ↔ done a m := Iff.rfl

@[simp] theorem ensures_throw : Ensures (throw f : Run α) m done failed ↔ failed f m := Iff.rfl

@[simp] theorem ensures_get {done : Manager → Manager → Prop} :
    Ensures get m done failed ↔ done m m := Iff.rfl

@[simp] theorem ensures_modify {g : Manager → Manager} {done : PUnit → Manager → Prop} :
    Ensures (modify g) m done failed ↔ done ⟨⟩ (g m) := Iff.rfl

/-- What follows starts where the first computation ends. -/
@[simp] theorem ensures_bind {done : β → Manager → Prop} :
    Ensures (x >>= k) m done failed ↔
      Ensures x m (fun a m' => Ensures (k a) m' done failed) failed := by
  unfold Ensures
  rw [outcome_bind]
  rcases outcome x m with ⟨f | a, m'⟩ <;> rfl

@[simp] theorem ensures_discard {done : PUnit → Manager → Prop} :
    Ensures (discard x) m done failed ↔ Ensures x m (fun _ => done ⟨⟩) failed := by
  rw [Functor.discard, LawfulFunctor.map_const, Function.comp_apply, map_eq_pure_bind, ensures_bind]
  simp only [ensures_pure, Function.const_apply]

@[simp] theorem ensures_orFail {wrap : ε → Failure} {r : Except ε α} :
    Ensures (orFail wrap r) m done failed ↔
      (∀ a, r = .ok a → done a m) ∧ ∀ e, r = .error e → failed (wrap e) m := by
  cases r <;> simp [orFail]

@[simp] theorem ensures_orMissing {o : Option α} :
    Ensures (orMissing f o) m done failed ↔
      (∀ a, o = some a → done a m) ∧ (o = none → failed f m) := by
  cases o <;> simp [orMissing]

/-- What a computation ends with is one or the other. -/
theorem Ensures.cases (h : Ensures x m done failed) :
    (∃ a m', outcome x m = (.ok a, m') ∧ done a m') ∨
      ∃ f m', outcome x m = (.error f, m') ∧ failed f m' := by
  unfold Ensures at h
  split at h
  · rename_i a m' ho
    exact Or.inl ⟨a, m', ho, h⟩
  · rename_i f m' ho
    exact Or.inr ⟨f, m', ho, h⟩

theorem Ensures.and_outcome (h : Ensures x m done failed) :
    Ensures x m (fun a m' => done a m' ∧ outcome x m = (.ok a, m')) failed := by
  revert h
  unfold Ensures
  rcases outcome x m with ⟨f | a, m'⟩
  · exact id
  · exact fun h => ⟨h, rfl⟩

theorem Ensures.imp (h : Ensures x m done failed) (hdone : ∀ a m', done a m' → done' a m')
    (hfailed : ∀ f m', failed f m' → failed' f m') : Ensures x m done' failed' := by
  unfold Ensures at h ⊢
  split at h
  · exact hdone _ _ h
  · exact hfailed _ _ h

/-- What holds before a loop and is passed on from turn to turn holds behind it. The turns that are
done are told by how the list is split. -/
theorem ensures_forM {as : List α} {body : α → Run PUnit} {P : List α → Manager → Prop}
    (hstart : P [] m)
    (hturn : ∀ before a after m', as = before ++ a :: after → P before m' →
      Ensures (body a) m' (fun _ => P (before ++ [a])) failed) :
    Ensures (as.forM body) m (fun _ => P as) failed := by
  have key : ∀ (rest before : List α) (m : Manager), as = before ++ rest → P before m →
      Ensures (rest.forM body) m (fun _ => P as) failed := by
    intro rest
    induction rest with
    | nil =>
        intro before m hsplit hP
        rw [List.append_nil] at hsplit
        exact hsplit ▸ hP
    | cons a rest ih =>
        intro before m hsplit hP
        rw [List.forM, ensures_bind]
        refine (hturn before a rest m hsplit hP).imp (fun _ m' hP' => ?_) fun _ _ => id
        exact ih (before ++ [a]) m' (by rw [hsplit, List.append_assoc]; rfl) hP'
  exact key as [] m rfl hstart

end

/-! ## Results of methods -/

variable {id j : MethodId} {b : Body} {c : AnalysisConfig} {r r' : MethodResults} {a : Analysis}

@[simp] theorem results_setResults (m : Manager) (id j : MethodId) (r : MethodResults) :
    (m.setResults id r).results j = if j = id then r else m.results j := by
  unfold results setResults
  rw [List.find?_append]
  by_cases hj : j = id
  · have hgone : (m.methods.filter (·.1 ≠ id)).find? (·.1 = j) = none := by simp [hj]
    rw [if_pos hj, hgone]
    simp [hj]
  · have hkept : (m.methods.filter (·.1 ≠ id)).find? (·.1 = j) = m.methods.find? (·.1 = j) := by
      rw [List.find?_filter]
      congr 1
      funext e
      by_cases he : e.1 = j <;> simp [he, hj]
    rw [if_neg hj, hkept]
    simp [Ne.symm hj]

/-- Of all that is stored only the results of one method differ. -/
structure Touches (id : MethodId) (m m' : Manager) : Prop where
  program : m'.program = m.program
  callGraph : m'.callGraph = m.callGraph
  icfg : m'.icfg = m.icfg
  interConstants : m'.interConstants = m.interConstants
  results {j : MethodId} : j ≠ id → m'.results j = m.results j

theorem touches_setResults (m : Manager) (id : MethodId) (r : MethodResults) :
    m.Touches id (m.setResults id r) :=
  ⟨rfl, rfl, rfl, rfl, fun hj => by simp [hj]⟩

/-- The code of a method is found if it has any. -/
theorem ensures_body {done : Body → Manager → Prop} {failed : Failure → Manager → Prop}
    (hb : m.program.hierarchy.body? id = some b) :
    Ensures (body id) m done failed ↔ done b m := by
  simp [body, hb]

/-- The manager with a control flow graph for a method. -/
def withGraph (m : Manager) (id : MethodId) : Manager :=
  if (m.results id).graph.isNone then
    { m.setResults id { m.results id with graph := some m.graphsMade } with
      graphsMade := m.graphsMade + 1 }
  else m

theorem touches_withGraph (m : Manager) (id : MethodId) : m.Touches id (m.withGraph id) := by
  unfold withGraph
  split
  · exact ⟨rfl, rfl, rfl, rfl, (touches_setResults m id _).results⟩
  · exact ⟨rfl, rfl, rfl, rfl, fun _ => rfl⟩

/-- A graph that is there stays, and otherwise one is made. -/
theorem results_withGraph (m : Manager) (id : MethodId) :
    ∃ n, (m.withGraph id).results id = { m.results id with graph := some n } ∧
      ∀ k, (m.results id).graph = some k → n = k := by
  unfold withGraph
  split
  · rename_i hnone
    refine ⟨m.graphsMade, ?_, fun k hk => by simp [hk] at hnone⟩
    exact (results_setResults m id id _).trans (if_pos rfl)
  · rename_i hsome
    obtain ⟨n, hn⟩ := Option.ne_none_iff_exists'.mp (by simpa using hsome)
    exact ⟨n, by rw [← hn], fun k hk => Option.some.inj (hn.symm.trans hk)⟩

theorem withGraph_eq_self (h : (m.results id).graph.isSome = true) : m.withGraph id = m := by
  rw [withGraph, if_neg (by simp [Option.isSome_iff_ne_none.mp h])]

theorem ensures_graph {done : Cfg → Manager → Prop} {failed : Failure → Manager → Prop}
    (hb : m.program.hierarchy.body? id = some b) :
    Ensures (graph id) m done failed ↔ done (.ofBody b) (m.withGraph id) := by
  unfold graph withGraph
  simp only [ensures_bind, ensures_body hb, ensures_get]
  split
  · simp only [changeResults, ensures_bind, ensures_modify, ensures_pure]
    exact Iff.rfl
  · simp only [ensures_pure]

/-! ## Method analyses -/

section

variable {failed : Failure → Manager → Prop} (hb : m.program.hierarchy.body? id = some b)
  (hgraph : (m.results id).graph.isSome = true)

include hb hgraph

theorem ensures_solveConstants [Nesting] {solver : Option String}
    {done : Solution Point Env → Manager → Prop} :
    Ensures (solveConstants id solver) m done failed ↔
      (∀ s, Constants.solve (.ofBody b) solver = .ok s →
        done s (m.setResults id { m.results id with constants := some s })) ∧
      ∀ e, Constants.solve (.ofBody b) solver = .error e → failed (.solve e) m := by
  simp only [solveConstants, changeResults, ensures_bind, ensures_graph hb,
    withGraph_eq_self hgraph, ensures_orFail, ensures_modify, ensures_pure]

theorem ensures_solveLiveness {solver : Option String}
    {done : Solution Point (FinSet Var) → Manager → Prop} :
    Ensures (solveLiveness id solver) m done failed ↔
      (∀ s, Liveness.solve (.ofBody b) solver = .ok s →
        done s (m.setResults id { m.results id with live := some s })) ∧
      ∀ e, Liveness.solve (.ofBody b) solver = .error e → failed (.solve e) m := by
  simp only [solveLiveness, changeResults, ensures_bind, ensures_graph hb,
    withGraph_eq_self hgraph, ensures_orFail, ensures_modify, ensures_pure]

/-- Dead code detection rests on the solutions that are there. -/
theorem ensures_detectDeadCode [Nesting] {solver : Option String} {done : List Nat → Manager → Prop}
    {cs : Solution Point Env} {lv : Solution Point (FinSet Var)}
    (hcs : (m.results id).constants = some cs) (hlv : (m.results id).live = some lv) :
    Ensures (detectDeadCode id solver) m done failed ↔
      done (DeadCode.ofSolutions (.ofBody b) cs lv) m := by
  simp only [detectDeadCode, ensures_bind, ensures_graph hb, withGraph_eq_self hgraph, ensures_get,
    hcs, hlv, ensures_pure]

end

/-- What a method analysis makes of the results of a method: it stores its own. -/
def Stores [Nesting] (c : AnalysisConfig) (b : Body) (r r' : MethodResults) : Prop :=
  match c.id with
  | .constprop => ∃ s, Constants.solve (.ofBody b) (c.text? "solver") = .ok s ∧
      r' = { r with constants := some s }
  | .livevar => ∃ s, Liveness.solve (.ofBody b) none = .ok s ∧ r' = { r with live := some s }
  | .deadcode => ∃ cs lv, r.constants = some cs ∧ r.live = some lv ∧
      r' = { r with dead := some (DeadCode.ofSolutions (.ofBody b) cs lv) }
  | _ => ∃ n, r' = { r with graph := some n } ∧ ∀ k, r.graph = some k → n = k

/-- A solver that an analysis runs on a method finds no solution. -/
def Unsolved [Nesting] (c : AnalysisConfig) (b : Body) (e : SolveError) : Prop :=
  Constants.solve (.ofBody b) (c.text? "solver") = .error e ∨
    Liveness.solve (.ofBody b) none = .error e

/-- **A method analysis stores its result**, or a solver finds no solution. -/
theorem ensures_runOnMethod [Nesting] (hb : m.program.hierarchy.body? id = some b)
    (hrequired : ∀ a ∈ c.id.requires, (m.results id).has a = true) :
    Ensures (runOnMethod c id) m
      (fun _ m' => m.Touches id m' ∧ Stores c b (m.results id) (m'.results id))
      (fun f _ => ∃ e, f = .solve e ∧ Unsolved c b e) := by
  have hset : ∀ r, m.Touches id (m.setResults id r) ∧ (m.setResults id r).results id = r :=
    fun r => ⟨touches_setResults m id r, by simp⟩
  unfold runOnMethod Stores Unsolved
  cases hc : c.id with
  | constprop =>
      have hgraph : (m.results id).graph.isSome = true := hrequired .cfg (by simp [hc, Analysis.requires])
      simp only [ensures_discard, ensures_solveConstants hb hgraph]
      refine ⟨fun s hs => ⟨(hset _).1, s, hs, (hset _).2⟩, fun e he => ⟨e, rfl, Or.inl he⟩⟩
  | livevar =>
      have hgraph : (m.results id).graph.isSome = true := hrequired .cfg (by simp [hc, Analysis.requires])
      simp only [ensures_discard, ensures_solveLiveness hb hgraph]
      refine ⟨fun s hs => ⟨(hset _).1, s, hs, (hset _).2⟩, fun e he => ⟨e, rfl, Or.inr he⟩⟩
  | deadcode =>
      have hgraph : (m.results id).graph.isSome = true := hrequired .cfg (by simp [hc, Analysis.requires])
      obtain ⟨cs, hcs⟩ := Option.isSome_iff_exists.mp
        (hrequired .constprop (by simp [hc, Analysis.requires]))
      obtain ⟨lv, hlv⟩ := Option.isSome_iff_exists.mp
        (hrequired .livevar (by simp [hc, Analysis.requires]))
      simp only [ensures_bind, ensures_detectDeadCode hb hgraph hcs hlv, changeResults,
        ensures_modify]
      exact ⟨(hset _).1, cs, lv, hcs, hlv, (hset _).2⟩
  | _ =>
      simp only [ensures_discard, ensures_graph hb]
      exact ⟨touches_withGraph m id, results_withGraph m id⟩

end TacFlow.Manager
