import TacFlow.Proofs.Calls.Equations
import TacFlow.Proofs.Constant.LeastSolution

/-!
# Where facts only rise across methods

What the edges of a call do to an environment respects its order: a parameter has the value of a
literal or of a variable, a result the join of some variables, and passing a call by takes away what
is known of one variable. So where every quotient has a literal for one of its operands, the far facts
of a whole program only rise, and the solver comes to its end as soon as there is a bound above them.
-/

namespace TacFlow.InterConstants

open Constants (flow)

variable {g : Icfg} {cg : CallGraph} {code : MethodId → Option Body} {n : ProgramPoint} {e : FlowEdge}
  {f f' : Env} {m : MethodId} {b : Body} {p : Point}

/-! ## Edges -/

theorem isAtom_of_mem_args {result : Option Var} {call : Call} {i : Nat}
    (hplain : ∀ m b, code m = some b → ∀ s ∈ b.stmts, s.isPlain = true)
    (hm : (Icfg.ofCallGraph cg code).cfg? m = some (.ofBody b))
    (hs : b.stmts[i]? = some (.invoke result call)) : ∀ e ∈ call.args, e.isAtom = true :=
  List.all_eq_true.mp (hplain _ _ (Icfg.cfg?_eq_ofBody.mp hm).2 _ (List.mem_of_getElem? hs))

theorem passArguments_mono {params : List Var} {args : List Expr}
    (hargs : ∀ e ∈ args, e.isAtom = true) (h : f.get ≤ f'.get) :
    (passArguments params args f).get ≤ (passArguments params args f').get := by
  refine List.foldl_rel (r := fun k k' : Env => k.get ≤ k'.get) le_rfl ?_
  rintro ⟨x, e⟩ hd k k' hk y
  rw [Env.get_set, Env.get_set]
  split
  · exact Constants.eval_atom_mono (hargs e (List.of_mem_zip hd).2) h
  · exact hk y

theorem returnedValue_mono (returned : List Var) (h : f.get ≤ f'.get) :
    returnedValue returned f ≤ returnedValue returned f' := by
  refine List.foldl_rel (r := fun v v' : Value => v ≤ v') le_rfl ?_
  intro x _ v v' hv
  exact sup_le_sup hv (h x)

/-- **What an edge brings rises with what is behind its source.** -/
theorem alongEdge_mono (hplain : ∀ m b, code m = some b → ∀ s ∈ b.stmts, s.isPlain = true)
    (he : e ∈ (Icfg.ofCallGraph cg code).edges) (h : f.get ≤ f'.get) :
    (alongEdge (.ofCallGraph cg code) e f).get ≤ (alongEdge (.ofCallGraph cg code) e f').get := by
  cases Icfg.mem_edges_iff_joins.mp he with
  | normal _ _ _ => exact h
  | callToReturn hm hs =>
      intro y
      rw [get_alongEdge_callToReturn hm hs, get_alongEdge_callToReturn hm hs]
      split
      · exact le_rfl
      · exact h y
  | call hm hs _ hkc =>
      rw [alongEdge_call hm hs hkc, alongEdge_call hm hs hkc]
      exact passArguments_mono (isAtom_of_mem_args hplain hm hs) h
  | ret hm hs _ _ =>
      intro y
      rw [get_alongEdge_ret hm hs, get_alongEdge_ret hm hs]
      split
      · exact returnedValue_mono _ h
      · exact le_rfl

/-! ## Transfers -/

/-- At a point that is no call the transfer is that of the body, and a call has none. -/
theorem plainAt_cases (cg : CallGraph) (code : MethodId → Option Body) (n : ProgramPoint) :
    plainAt (.ofCallGraph cg code) n = none ∨ ∃ b, code n.method = some b ∧
      plainAt (.ofCallGraph cg code) n = b.at? n.point := by
  cases hc : (Icfg.ofCallGraph cg code).cfg? n.method with
  | none => exact Or.inl (by simp [plainAt, Icfg.at?, hc])
  | some c =>
      obtain ⟨_, b, hb, rfl⟩ := Icfg.cfg?_eq_some.mp hc
      rw [plainAt_eq hc]
      cases hs : b.at? n.point with
      | none => exact Or.inl rfl
      | some s =>
          cases hcall : s.call?.isNone with
          | false => exact Or.inl (by rw [Option.filter_some, hcall]; rfl)
          | true => exact Or.inr ⟨b, hb, by rw [Option.filter_some, hcall, hs]; rfl⟩

theorem flow_plainAt_mono (hwell : ∀ m b, code m = some b → b.WellFormed)
    (hlit : ∀ m b, code m = some b → b.DividesLiterals) (h : f.get ≤ f'.get) :
    flow (plainAt (.ofCallGraph cg code) n) f ≤ flow (plainAt (.ofCallGraph cg code) n) f' := by
  rcases plainAt_cases cg code n with hnone | ⟨b, hb, heq⟩
  · rw [hnone]
    exact h
  · rw [heq]
    exact Constants.flow_mono_of_dividesLiterals (fun _ hs => (hwell _ _ hb).flat hs) (hlit _ _ hb) h

/-! ## Room above the facts -/

/-- How far the values of the tracked variables of a method are from `nac` together. -/
def roomAt (code : MethodId → Option Body) (n : ProgramPoint) (f : Env) : Nat :=
  (code n.method).elim 0 (Constants.room · f)

theorem roomAt_of_body (hb : code n.method = some b) : roomAt code n f = Constants.room b f := by
  rw [roomAt, hb]
  rfl

theorem roomAt_congr (n : ProgramPoint) (h : f.get = f'.get) :
    roomAt code n f = roomAt code n f' := by
  unfold roomAt
  congr 1
  funext b
  exact Constants.room_congr h

/-! ## The end of the solver -/

section

variable (hwell : ∀ m b, code m = some b → b.WellFormed)
  (hlit : ∀ m b, code m = some b → b.DividesLiterals)
  (hplain : ∀ m b, code m = some b → ∀ s ∈ b.stmts, s.isPlain = true)

include hwell hlit hplain

/-- **The far facts of a whole program ascend**, at all of its points. -/
theorem ascends : (problem (.ofCallGraph cg code)).Ascends Env.get (visited (.ofCallGraph cg code))
    (fun _ => True) (fun n => flow (plainAt (.ofCallGraph cg code) n)) where
  mem_nodes hn := (mem_visited.mp hn).1
  inflow_calm _ _ := trivial
  join_mono := Env.joinWith_mono
  along_mono {n d f f'} hd h := by
    obtain ⟨e, he, rfl⟩ := List.mem_map.mp hd
    exact alongEdge_mono hplain (mem_inEdges.mp he).1 h
  flow_mono _ _ _ h := flow_plainAt_mono hwell hlit h
  transfer_eq {n near far} h := by
    change (transfer _ n near far).get = _
    rw [transfer_eq]
    exact Constants.get_transferStmt_of_le h
  start_le {n} _ _ := by
    have hseed : (seed (.ofCallGraph cg code) n).get ≤
        ((problem (.ofCallGraph cg code)).merged (problem (.ofCallGraph cg code)).initial n).get :=
      (merged_le_iff.mp le_rfl).1
    -- something flows in from outside at entries only, and there is no statement
    by_cases hentry : n.point = .entry
    · have hnone : plainAt (.ofCallGraph cg code) n = none := by
        simp [plainAt, Icfg.at?, hentry, Body.at?]
      rw [hnone]
      exact hseed
    · have hbottom : seed (.ofCallGraph cg code) n = .empty := by
        simp [seed, isBoundary, hentry]
      change (seed (.ofCallGraph cg code) n).get ≤ _
      rw [hbottom]
      exact fun y => Value.unassigned_le _

/-- **The solver returns** if nothing is ever known but of tracked variables. -/
theorem exists_returns_of_knowable
    (hknown : ∀ facts n b, (problem (.ofCallGraph cg code)).Reached
      (visited (.ofCallGraph cg code)) facts → code n.method = some b →
        ((problem (.ofCallGraph cg code)).farOf facts n).get ≤ Constants.knowable b) :
    ∃ s, Returns (.ofCallGraph cg code) s := by
  have hclosed := closed (g := .ofCallGraph cg code) fun e he =>
    Icfg.target_mem_nodes (fun m b hb => (hwell m b hb).linked) he
  have hdescends := (ascends hwell hlit hplain).descends (lawful (.ofCallGraph cg code))
    (roomAt code) (fun n f f' h => roomAt_congr n h) ?_
  · obtain ⟨out, hout⟩ := Problem.exists_solveWorklist (lawful _) hclosed hdescends
    exact ⟨out.forward, _, by rw [solveWithin, hout]; rfl⟩
  · intro facts n f hr hn hlt
    obtain ⟨_, hc, _⟩ := Icfg.mem_nodes.mp (mem_visited.mp hn).1
    obtain ⟨_, b, hb, _⟩ := Icfg.cfg?_eq_some.mp hc
    rw [roomAt_of_body hb, roomAt_of_body hb]
    exact Constants.room_lt_of_le_of_ne hlt.le hlt.ne (hknown facts n b hr hb)

end

end TacFlow.InterConstants
