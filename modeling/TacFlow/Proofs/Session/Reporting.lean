import TacFlow.Proofs.Session.Completeness
import TacFlow.Session.Report

/-!
# Reports on complete runs

A report asks for stored results and for the facts in them, and it fails where something is missing. After
a run of a plan that completes nothing is missing for any of its analyses: every analysed method has its
results, and a solution that a solver returned has a fact at every point that it is asked for.
-/

namespace TacFlow

/-! ## Facts at every point -/

theorem Constants.get?_after_of_returns {b : Body} (hb : b.Linked) {solver : SolverKind}
    {s : Solution Point Env} (h : Returns (.ofBody b) solver s) {n : Point} (hn : n ∈ b.points) :
    s.after.get? n = some (afterAt s n) := by
  obtain ⟨facts, hf, rfl⟩ := solved_of_returns hb h
  exact Problem.get?_far (p := problem (.ofBody b)) (Problem.covers_reached hf.reached) hn

/-- The solution across methods has both facts at every point. -/
theorem InterConstants.isSome_of_returns {cg : CallGraph} {code : MethodId → Option Body}
    (hlinked : ∀ m b, code m = some b → b.Linked) {s : Solution ProgramPoint Env}
    (hs : Returns (.ofCallGraph cg code) s) {n : ProgramPoint}
    (hn : n ∈ (Icfg.ofCallGraph cg code).nodes) :
    (s.before.get? n).isSome = true ∧ (s.after.get? n).isSome = true := by
  obtain ⟨facts, hsolved, rfl⟩ := solved_of_returns hlinked hs
  have hcovers := Problem.covers_reached hsolved.reached
  exact ⟨by simp [Facts.forward, Problem.get?_near hcovers hn],
    by simp [Facts.forward, Problem.get?_far hcovers hn]⟩

/-! ## Sections -/

namespace Report

variable {α β ε : Type} {h : Hierarchy} {a : Analysis} {methods : List MethodId} {b : Body}

/-- Steps that succeed one after the other succeed together. -/
theorem exists_bind_eq_ok {x : Except ε α} {k : α → Except ε β} (hx : ∃ a, x = .ok a)
    (hk : ∀ a, x = .ok a → ∃ b, k a = .ok b) : ∃ b, (x >>= k) = .ok b := by
  obtain ⟨a, ha⟩ := hx
  obtain ⟨b, hb⟩ := hk a ha
  exact ⟨b, Resolve.bind_eq_ok.mpr ⟨a, ha, hb⟩⟩

/-- What succeeds for each succeeds for all. -/
theorem exists_mapM_eq_ok {f : α → Except ε β} {as : List α} (hf : ∀ a ∈ as, ∃ b, f a = .ok b) :
    ∃ bs, as.mapM f = .ok bs := by
  induction as with
  | nil => exact ⟨[], rfl⟩
  | cons a as ih =>
      rw [List.mapM_cons]
      refine exists_bind_eq_ok (hf a (by simp)) fun b _ => ?_
      exact exists_bind_eq_ok (ih fun a ha => hf a (List.mem_cons_of_mem _ ha)) fun bs _ => ⟨_, rfl⟩

theorem exists_found_eq_ok {f : Failure} {o : Option α} (ho : o.isSome = true) :
    ∃ a, found f o = .ok a := by
  obtain ⟨a, rfl⟩ := Option.isSome_iff_exists.mp ho
  exact ⟨a, rfl⟩

theorem mem_sorted {id : MethodId} : id ∈ sorted methods ↔ id ∈ methods :=
  List.mem_mergeSort

/-- The facts of a body are listed if there is one behind every statement. -/
theorem exists_factLines_eq_ok {fact : Point → Option Env}
    (hfact : ∀ i s, b.stmts[i]? = some s → (fact (.stmt i)).isSome = true) :
    ∃ ls, factLines b fact = .ok ls := by
  refine exists_bind_eq_ok (exists_mapM_eq_ok ?_) fun _ _ => ⟨_, rfl⟩
  rintro ⟨s, i⟩ hs
  have hsome := hfact i s (List.mk_mem_zipIdx_iff_getElem?.mp hs)
  exact exists_bind_eq_ok (exists_found_eq_ok hsome) fun _ _ => ⟨_, rfl⟩

theorem exists_facts_eq_ok {fact : MethodId → Except Failure (Point → Option Env)}
    (hbody : ∀ id ∈ methods, (h.body? id).isSome = true)
    (hfact : ∀ id ∈ methods, ∀ b, h.body? id = some b → ∃ at?, fact id = .ok at? ∧
      ∀ i s, b.stmts[i]? = some s → (at? (.stmt i)).isSome = true) :
    ∃ ls, facts h a methods fact = .ok ls := by
  refine exists_bind_eq_ok (exists_mapM_eq_ok fun id hid => ?_) fun _ _ => ⟨_, rfl⟩
  have hid := mem_sorted.mp hid
  obtain ⟨b, hb⟩ := Option.isSome_iff_exists.mp (hbody id hid)
  obtain ⟨at?, hat, hat'⟩ := hfact id hid b hb
  refine exists_bind_eq_ok (exists_found_eq_ok (hbody id hid)) fun b' hb' => ?_
  obtain rfl : b = b' := by simpa [body, found, hb] using hb'
  refine exists_bind_eq_ok ⟨at?, hat⟩ fun at' hat'' => ?_
  obtain rfl := Except.ok.inj (hat.symm.trans hat'')
  exact exists_factLines_eq_ok hat'

end Report

/-! ## Behind a run -/

namespace Manager

open Report

variable {p : Program} {done : List Analysis} {m : Manager} {id : MethodId}

theorem Ran.isSome_body? [Nesting] (h : Ran p done m) (hp : p.Parsed) (hid : id ∈ m.analysedMethods) :
    (m.program.hierarchy.body? id).isSome = true :=
  isSome_body?_of_mem_analysedMethods (h.hierarchy ▸ hp.classes_wellFormed) hid

theorem Ran.exists_linesOf_constprop [Nesting] (h : Ran p done m) (hp : p.Parsed)
    (hdone : .constprop ∈ done) (draw : Bool) : ∃ ls, linesOf m draw .constprop = .ok ls := by
  refine exists_facts_eq_ok (fun id hid => h.isSome_body? hp hid) fun id hid b hb => ?_
  have hstored : (m.results id).constants.isSome = true := h.stored hdone rfl hid
  obtain ⟨s, hs⟩ := Option.isSome_iff_exists.mp hstored
  obtain ⟨solver, hreturns⟩ := (h.consistent id b hb).constants hs
  have hlinked := hp.linked (h.hierarchy ▸ hb)
  refine ⟨s.after.get?, by rw [hs]; rfl, fun i x hx => ?_⟩
  rw [Constants.get?_after_of_returns hlinked hreturns (Body.stmt_mem_points hx)]
  rfl

theorem Ran.exists_linesOf_deadcode [Nesting] (h : Ran p done m) (hp : p.Parsed)
    (hdone : .deadcode ∈ done) (draw : Bool) : ∃ ls, linesOf m draw .deadcode = .ok ls := by
  refine exists_bind_eq_ok (exists_mapM_eq_ok fun id hid => ?_) fun _ _ => ⟨_, rfl⟩
  have hid := mem_sorted.mp hid
  have hstored : (m.results id).dead.isSome = true := h.stored hdone rfl hid
  refine exists_bind_eq_ok (exists_found_eq_ok (h.isSome_body? hp hid)) fun _ _ => ?_
  exact exists_bind_eq_ok (exists_found_eq_ok hstored) fun _ _ => ⟨_, rfl⟩

theorem Ran.exists_linesOf_cha [Nesting] (h : Ran p done m) (hp : p.Parsed) (hdone : .cha ∈ done)
    (draw : Bool) : ∃ ls, linesOf m draw .cha = .ok ls := by
  refine exists_bind_eq_ok (exists_found_eq_ok (h.callGraph_isSome.mpr hdone)) fun g hg => ?_
  have hsome : m.callGraph = some g := by
    cases hcg : m.callGraph with
    | none => exact absurd hg (by simp [found, hcg])
    | some g' => rw [hcg] at hg; exact congrArg some (Except.ok.inj hg)
  obtain ⟨entry, rfl⟩ := h.callGraph hsome
  have hdrawable := (Hierarchy.isLeastCallGraph hp.classes_wellFormed entry).drawable ""
  obtain ⟨text, htext⟩ := Option.isSome_iff_exists.mp hdrawable
  cases draw with
  | false => exact ⟨_, rfl⟩
  | true => exact ⟨_, by rw [htext]; rfl⟩

/-- There is a fact behind every statement of the methods that are joined. -/
theorem Ran.exists_linesOf_interConstprop [Nesting] (h : Ran p done m) (hp : p.Parsed)
    (hdone : .interConstprop ∈ done) (draw : Bool) :
    ∃ ls, linesOf m draw .interConstprop = .ok ls := by
  obtain ⟨⟨s, graphs⟩, hs⟩ := Option.isSome_iff_exists.mp (h.interConstants_isSome.mpr hdone)
  obtain ⟨g, hg, hsolve⟩ := h.interConstants hs
  obtain ⟨cg, hcg, rfl⟩ := h.icfg hg
  simp only [linesOf, hg, hs, found]
  refine exists_facts_eq_ok (fun id hid => ?_) fun id hid b hb => ⟨_, rfl, fun i x hx => ?_⟩
  · obtain ⟨_, b, hb⟩ := Icfg.mem_methods_iff.mp hid
    simp [h.hierarchy, hb]
  · obtain ⟨hreachable, _⟩ := Icfg.mem_methods_iff.mp hid
    have hcode := Icfg.cfg?_ofBody hreachable (h.hierarchy ▸ hb)
    have hn : (⟨.stmt i, id⟩ : ProgramPoint) ∈ (Icfg.ofCallGraph cg p.hierarchy.body?).nodes :=
      Icfg.mem_nodes.mpr ⟨_, hcode, Body.stmt_mem_points hx⟩
    have hreturns := InterConstants.returns_of_solve hsolve
    exact (InterConstants.isSome_of_returns (fun _ _ => hp.linked) hreturns hn).2

theorem Ran.exists_linesOf_cfg [Nesting] (h : Ran p done m) (hp : p.Parsed) (hdone : .cfg ∈ done)
    (draw : Bool) : ∃ ls, linesOf m draw .cfg = .ok ls := by
  cases draw with
  | false => exact ⟨[], rfl⟩
  | true =>
      refine exists_mapM_eq_ok fun id hid => ?_
      have hid := mem_sorted.mp hid
      have hstored : (m.results id).graph.isSome = true := h.stored hdone rfl hid
      refine exists_bind_eq_ok (exists_found_eq_ok (h.isSome_body? hp hid)) fun b _ => ?_
      obtain ⟨n, hn⟩ := Option.isSome_iff_exists.mp hstored
      exact ⟨_, by rw [hn]; rfl⟩

/-- **Any analyses that have run can be reported on.** -/
theorem Ran.exists_report [Nesting] (h : Ran p done m) (hp : p.Parsed) {requested : List Analysis}
    (hrequested : ∀ a ∈ requested, a ∈ done) (draw : Bool) :
    ∃ text, m.report requested draw = .ok text := by
  refine exists_bind_eq_ok (exists_mapM_eq_ok fun a ha => ?_) fun _ _ => ⟨_, rfl⟩
  have hdone := hrequested a ha
  cases a with
  | cfg => exact h.exists_linesOf_cfg hp hdone draw
  | constprop => exact h.exists_linesOf_constprop hp hdone draw
  | deadcode => exact h.exists_linesOf_deadcode hp hdone draw
  | cha => exact h.exists_linesOf_cha hp hdone draw
  | interConstprop => exact h.exists_linesOf_interConstprop hp hdone draw
  | livevar => exact ⟨[], rfl⟩
  | icfg => exact ⟨[], rfl⟩

end Manager

end TacFlow
