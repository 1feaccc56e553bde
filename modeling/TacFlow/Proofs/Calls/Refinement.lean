import TacFlow.Proofs.Calls.Ascent
import TacFlow.Proofs.Calls.FixedPoint
import TacFlow.Proofs.Calls.Soundness

/-!
# Methods in their program and alone

What is known of a method inside a whole program is at least as precise as what is known of the
method alone. Alone, nothing is assumed of a parameter and nothing of the result of a call, while a
program passes the values that it has.

The solver for the program works with other equations than the solvers for methods: a call hands on
what is before it, and its result comes along other edges. But put the solutions of all methods side
by side, and nothing that flows in the program gets above them. `Ceiling` is this property. A solver
that starts below a ceiling stays below it, whatever it visits and in whatever order, and recursive
calls make no difference. The ceiling is also what ends the search.

Tracked and untracked variables must not be mixed up at calls. An untracked parameter with the value of
a tracked variable would be known in the program, and never alone.
-/

namespace TacFlow

/-- Quotients are taken of literals or by literals, and calls match what they call: literals and
tracked variables are passed exactly to tracked parameters, and tracked variables are returned exactly
to tracked variables. -/
structure IntMatched (code : MethodId → Option Body) (callees : CallSite → List MethodId) : Prop where
  /-- Every quotient and every remainder has a literal for one of its operands. -/
  divides {m : MethodId} {b : Body} : code m = some b → b.DividesLiterals
  /-- The arguments of a call match the parameters of its callees. -/
  arguments {m k : MethodId} {b b' : Body} {i : Nat} {result : Option Var} {c : Call} :
    code m = some b → b.stmts[i]? = some (.invoke result c) → k ∈ callees ⟨i, m⟩ →
    code k = some b' → ∀ x e, (x, e) ∈ b'.params.zip c.args →
      (e.isIntOperand = true ↔ x.isIntLike = true)
  /-- What the callees of a call return matches the variable for the result. -/
  results {m k : MethodId} {b b' : Body} {i : Nat} {x : Var} {c : Call} :
    code m = some b → b.stmts[i]? = some (.invoke (some x) c) → k ∈ callees ⟨i, m⟩ →
    code k = some b' → ∀ y ∈ b'.returnVars, (y.isIntLike = true ↔ x.isIntLike = true)

/-! ## Values of untracked operands -/

theorem Constants.eval_of_not_isIntOperand {f : Env}
    (hf : ∀ x, ¬ x.isIntLike = true → f.get x = .unassigned) {e : Expr} (hatom : e.isAtom = true)
    (he : ¬ e.isIntOperand = true) : e.eval f = .unassigned := by
  cases e with
  | lit n => exact absurd rfl he
  | var x => exact hf x he
  | _ => exact absurd hatom (by simp [Expr.isAtom])

namespace InterConstants

open Constants (assigned flow boundary knowable)

/-! ## Ceilings -/

section

variable {g : Icfg} {facts : Facts ProgramPoint Env} {before after : ProgramPoint → Env}
  {n : ProgramPoint}

/-- Environments around the points of a graph that nothing gets above which flows in the graph. -/
structure Ceiling (g : Icfg) (before after : ProgramPoint → Env) : Prop where
  /-- What flows in from outside is below both environments. -/
  seed_before (n : ProgramPoint) : (seed g n).get ≤ (before n).get
  seed_after (n : ProgramPoint) : (seed g n).get ≤ (after n).get
  /-- What edges bring stays below. -/
  along {e : FlowEdge} {f : Env} : e ∈ g.edges → f.get ≤ (after e.source).get →
    (alongEdge g e f).get ≤ (before e.target).get
  /-- So does what transfers make. -/
  flow {n : ProgramPoint} {f : Env} : n ∈ g.nodes → f.get ≤ (before n).get →
    flow (plainAt g n) f ≤ (after n).get

variable (h : Ceiling g before after)

include h

theorem Ceiling.merged_le (hfar : ∀ m, ((problem g).farOf facts m).get ≤ (after m).get)
    (n : ProgramPoint) : ((problem g).merged facts n).get ≤ (before n).get := by
  refine merged_le_iff.mpr ⟨h.seed_before n, fun e he => ?_⟩
  obtain ⟨hmem, rfl⟩ := mem_inEdges.mp he
  exact h.along hmem (hfar e.source)

/-- **A solver that starts below a ceiling stays below it.** -/
theorem Ceiling.far_le (hr : (problem g).Reached (visited g) facts) (n : ProgramPoint) :
    ((problem g).farOf facts n).get ≤ (after n).get := by
  refine Problem.far_of_reached (fun n hn => (mem_visited.mp hn).1)
    (P := fun n f => f.get ≤ (after n).get) ?_ h.seed_after ?_ hr n
  · exact fun n y => Value.unassigned_le _
  · intro facts n hn hfar
    change (transfer g n _ _).get ≤ _
    rw [transfer_eq]
    exact Constants.get_transferStmt_le (h.flow (mem_visited.mp hn).1 (h.merged_le hfar n)) (hfar n)

theorem Ceiling.near_le (hs : (problem g).Solved Env.get (visited g) facts) (hn : n ∈ g.nodes)
    (hne : n.point ≠ .entry) : ((problem g).nearOf facts n).get ≤ (before n).get := by
  rw [(hs.settled (mem_visited_of_ne_entry hn hne)).near]
  exact h.merged_le (h.far_le hs.reached) n

end

/-! ## The methods side by side -/

section

variable {cg : CallGraph} {code : MethodId → Option Body} {before after : MethodId → Point → Env}
  {m k : MethodId} {b b' : Body} {p q : Point} {i : Nat} {x : Var} {f : Env} {result : Option Var}
  {call : Call}

/-- The solution that every solver finds for a method alone. -/
structure SolvedAlone (b : Body) (before after : Point → Env) : Prop where
  solution : Constants.IsSolution (.ofBody b) before after
  /-- Nothing is known in it but of tracked variables. -/
  le_knowable (p : Point) : (after p).get ≤ knowable b
  returns (solver : SolverKind) : ∃ s, Constants.Returns (.ofBody b) solver s
  agrees {solver : SolverKind} {s : Solution Point Env} :
    Constants.Returns (.ofBody b) solver s → Constants.Agrees b s before after

theorem exists_solvedAlone (hb : b.WellFormed) (hlit : b.DividesLiterals) :
    ∃ before after, SolvedAlone b before after := by
  obtain ⟨μ, hμ⟩ := Constants.exists_descends hb (Constants.hazardsEnd_of_dividesLiterals hlit)
  have hreturns := Constants.exists_returns_of_descends hb.linked hμ
  obtain ⟨_, hs⟩ := hreturns .worklist
  obtain ⟨facts, hsolved, _⟩ := Constants.solved_of_returns hb.linked hs
  have hleast := Constants.isLeastSolution_of_solved (fun _ hs => hb.flat hs) hlit hsolved
  refine ⟨_, _, hleast.toIsSolution, Constants.far_le_knowable hsolved.reached, hreturns, ?_⟩
  intro solver s hs
  obtain ⟨_, hsolved', rfl⟩ := Constants.solved_of_returns hb.linked hs
  exact Constants.agrees_of_solved hb hlit hleast hsolved'

/-- The environment before a point in the solution for its method. At entries, where the solution
knows nothing yet, it is the boundary. -/
def beforeAlone (before after : MethodId → Point → Env) (n : ProgramPoint) : Env :=
  if n.point = .entry then after n.method .entry else before n.method n.point

def afterAlone (after : MethodId → Point → Env) (n : ProgramPoint) : Env :=
  after n.method n.point

/-- What a call passes is below the boundary of its callee, where tracked parameters may be anything. -/
theorem passArguments_le_boundary {args : List Expr} (hf : f.get ≤ knowable b)
    (hatoms : ∀ e ∈ args, e.isAtom = true)
    (hargs : ∀ x e, (x, e) ∈ b'.params.zip args → (e.isIntOperand = true ↔ x.isIntLike = true)) :
    (passArguments b'.params args f).get ≤ (boundary b').get := by
  refine List.foldlRecOn (motive := fun k : Env => k.get ≤ (boundary b').get) _ _
    (fun y => Value.unassigned_le _) ?_
  rintro k hk ⟨x, e⟩ hd y
  rw [Env.get_set]
  split
  · rename_i hy
    obtain ⟨hx, he⟩ := List.of_mem_zip hd
    by_cases hint : x.isIntLike = true
    · -- a tracked parameter: the boundary has `nac` for it
      rw [Constants.get_boundary, if_pos ⟨hy ▸ hx, hy ▸ hint⟩]
      exact Value.le_nac _
    · -- an untracked one, so that nothing is known of its argument
      have hnone := Constants.eval_of_not_isIntOperand
        (fun _ => Constants.eq_unassigned_of_le_knowable hf) (hatoms e he)
        fun hop => hint ((hargs x e hd).mp hop)
      dsimp only
      rw [hnone]
      exact Value.unassigned_le _
  · exact hk y

/-- Alone, a tracked result of a call may be anything, and the other variables keep their values. -/
theorem flow_invoke (result : Option Var) (call : Call) (f : Env) (y : Var) :
    flow (some (.invoke result call)) f y =
      if result = some y ∧ y.isIntLike = true then .nac else f.get y := by
  cases result with
  | none => exact (if_neg (by simp)).symm
  | some x =>
      have hassigned : assigned f (.invoke (some x) call) =
          if x.isIntLike = true then some (x, .nac) else none := rfl
      by_cases hx : x.isIntLike = true
      · rw [if_pos hx] at hassigned
        simp only [flow, Option.bind_some, hassigned, Option.some.injEq, eq_comm]
        by_cases hy : y = x
        · simp [hy, hx]
        · simp [hy]
      · have hnot : ¬ (some x = some y ∧ y.isIntLike = true) := by
          rintro ⟨hq, hy⟩
          exact hx (Option.some.inj hq ▸ hy)
        rw [if_neg hx] at hassigned
        simp only [flow, Option.bind_some, hassigned, if_neg hnot]

/-- A transfer that leaves out calls knows no more than one that forgets their results. -/
theorem flow_filter_le (s : Option Stmt) (f : Env) :
    flow (s.filter (·.call?.isNone)) f ≤ flow s f := by
  cases s with
  | none => exact le_rfl
  | some s =>
      cases s with
      | invoke result call =>
          intro y
          change f.get y ≤ _
          rw [flow_invoke]
          split
          · exact Value.le_nac _
          · exact le_rfl
      | _ => exact le_rfl

theorem returnedValue_le {returned : List Var} {f : Env} {v : Value}
    (h : ∀ x ∈ returned, f.get x ≤ v) : returnedValue returned f ≤ v :=
  List.foldlRecOn (motive := (· ≤ v)) _ _ (Value.unassigned_le v) fun _ hle x hx => sup_le hle (h x hx)

/-- What flows in from outside is the boundary of an entry method, or nothing. -/
theorem seed_cases (cg : CallGraph) (code : MethodId → Option Body) (n : ProgramPoint) :
    seed (.ofCallGraph cg code) n = .empty ∨
      n.point = .entry ∧ n.method ∈ (Icfg.ofCallGraph cg code).entries ∧
        ∃ b, (Icfg.ofCallGraph cg code).cfg? n.method = some (.ofBody b) ∧
          seed (.ofCallGraph cg code) n = boundary b := by
  cases hflag : isBoundary (.ofCallGraph cg code) n with
  | false => exact Or.inl (by simp [seed, hflag])
  | true =>
      cases hc : (Icfg.ofCallGraph cg code).cfg? n.method with
      | none => exact Or.inl (by simp [seed, hflag, hc])
      | some c =>
          obtain ⟨_, b, _, rfl⟩ := Icfg.cfg?_eq_some.mp hc
          have hseed : seed (.ofCallGraph cg code) n = boundary b := by
            simp [seed, hflag, hc, Cfg.ofBody]
          simp only [isBoundary, Bool.and_eq_true, decide_eq_true_eq] at hflag
          exact Or.inr ⟨hflag.1, hflag.2, b, rfl, hseed⟩

variable (h : ∀ m b, code m = some b → SolvedAlone b (before m) (after m))

include h

theorem afterAlone_le_beforeAlone (hb : code m = some b) (hl : b.Linked)
    (hq : q ∈ (Cfg.ofBody b).succs p) :
    (afterAlone after ⟨p, m⟩).get ≤ (beforeAlone before after ⟨q, m⟩).get := by
  obtain ⟨hmem, hne⟩ := Cfg.Linked.mem_succs hl hq
  rw [beforeAlone, if_neg hne, (h m b hb).solution.before_eq hmem hne]
  exact Constants.joined_le_iff.mp le_rfl p (Cfg.mem_preds_iff.mpr hq)

theorem get_afterAlone_call (hb : code m = some b)
    (hs : b.stmts[i]? = some (.invoke (some x) call)) (hx : x.isIntLike = true) :
    (afterAlone after ⟨.stmt i, m⟩).get x = .nac := by
  have hat : b.at? (.stmt i) = some (.invoke (some x) call) := hs
  rw [afterAlone, (h m b hb).solution.after_eq (Body.stmt_mem_points hs) (by simp)]
  change flow (b.at? (.stmt i)) _ x = _
  rw [hat, flow_invoke, if_pos ⟨rfl, hx⟩]

/-- Passing a call by takes away what is known of the result, so nothing is brought that was not known
alone. -/
theorem callToReturn_le_alone (hl : ∀ m b, code m = some b → b.Linked)
    (hm : (Icfg.ofCallGraph cg code).cfg? m = some (.ofBody b))
    (hs : b.stmts[i]? = some (.invoke result call))
    (hf : f.get ≤ (afterAlone after ⟨.stmt i, m⟩).get) :
    (alongEdge (.ofCallGraph cg code) ⟨⟨.stmt i, m⟩, ⟨b.following i, m⟩, .callToReturn⟩ f).get ≤
      (beforeAlone before after ⟨b.following i, m⟩).get := by
  have hb := (Icfg.cfg?_eq_ofBody.mp hm).2
  have hkept := afterAlone_le_beforeAlone h hb (hl m b hb) (Icfg.following_mem_succs hs)
  intro y
  rw [get_alongEdge_callToReturn hm hs]
  split
  · exact Value.unassigned_le _
  · exact (hf.trans hkept) y

/-- A result comes back to where anything is allowed, or from variables of which nothing is known. -/
theorem ret_le_alone (hint : IntMatched code cg.callees)
    (hl : ∀ m b, code m = some b → b.Linked)
    (hm : (Icfg.ofCallGraph cg code).cfg? m = some (.ofBody b))
    (hs : b.stmts[i]? = some (.invoke result call)) (hk : k ∈ cg.callees ⟨i, m⟩)
    (hkc : (Icfg.ofCallGraph cg code).cfg? k = some (.ofBody b'))
    (hf : f.get ≤ (afterAlone after ⟨.exit, k⟩).get) :
    (alongEdge (.ofCallGraph cg code)
      ⟨⟨.exit, k⟩, ⟨b.following i, m⟩, .ret ⟨i, m⟩ k b'.returnVars⟩ f).get ≤
        (beforeAlone before after ⟨b.following i, m⟩).get := by
  have hb := (Icfg.cfg?_eq_ofBody.mp hm).2
  have hb' := (Icfg.cfg?_eq_ofBody.mp hkc).2
  intro y
  rw [get_alongEdge_ret hm hs]
  split
  · rename_i hres
    subst hres
    by_cases hy : y.isIntLike = true
    · -- behind the call the method alone has `nac` for its result
      have hnac := afterAlone_le_beforeAlone h hb (hl m b hb) (Icfg.following_mem_succs hs) y
      rw [get_afterAlone_call h hb hs hy] at hnac
      exact (Value.le_nac _).trans hnac
    · -- the callee alone knows nothing of the variables that it returns
      have hnone : returnedValue b'.returnVars f ≤ .unassigned := by
        refine returnedValue_le fun z hz => ?_
        have huntracked : ¬ z.isIntLike = true := fun hz' =>
          hy ((hint.results hb hs hk hb' z hz).mp hz')
        have hle := hf.trans ((h _ _ hb').le_knowable .exit)
        exact (Constants.eq_unassigned_of_le_knowable hle huntracked).le
      exact hnone.trans (Value.unassigned_le _)
  · exact Value.unassigned_le _

/-- What the transfer at a point makes is below what the method alone has after it. -/
theorem flow_le_alone (hwell : ∀ m b, code m = some b → b.WellFormed)
    (hlit : ∀ m b, code m = some b → b.DividesLiterals)
    (hn : (⟨p, m⟩ : ProgramPoint) ∈ (Icfg.ofCallGraph cg code).nodes)
    (hf : f.get ≤ (beforeAlone before after ⟨p, m⟩).get) :
    flow (plainAt (.ofCallGraph cg code) ⟨p, m⟩) f ≤ (afterAlone after ⟨p, m⟩).get := by
  obtain ⟨_, hm, hp⟩ := Icfg.mem_nodes.mp hn
  obtain ⟨_, b, hb, rfl⟩ := Icfg.cfg?_eq_some.mp hm
  rw [plainAt_eq hm]
  by_cases hentry : p = .entry
  · subst hentry
    exact hf
  · rw [beforeAlone, if_neg hentry] at hf
    have hmono : flow (b.at? p) f ≤ flow (b.at? p) (before m p) :=
      Constants.flow_mono_of_dividesLiterals (fun _ hs => (hwell m b hb).flat hs) (hlit m b hb) hf
    rw [afterAlone, (h m b hb).solution.after_eq hp hentry]
    exact (flow_filter_le (b.at? p) f).trans hmono

/-- **The solutions of all methods, side by side, are a ceiling of the program.** -/
theorem ceiling_alone (hint : IntMatched code cg.callees)
    (hwell : ∀ m b, code m = some b → b.WellFormed)
    (hplain : ∀ m b, code m = some b → ∀ s ∈ b.stmts, s.isPlain = true) :
    Ceiling (.ofCallGraph cg code) (beforeAlone before after) (afterAlone after) where
  seed_before n := by
    rcases seed_cases cg code n with hseed | ⟨hentry, _, b, hc, hseed⟩
    · rw [hseed]
      exact fun y => Value.unassigned_le _
    · rw [hseed, beforeAlone, if_pos hentry]
      exact (h _ b (Icfg.cfg?_eq_ofBody.mp hc).2).solution.entry_after.ge
  seed_after n := by
    rcases seed_cases cg code n with hseed | ⟨hentry, _, b, hc, hseed⟩
    · rw [hseed]
      exact fun y => Value.unassigned_le _
    · rw [hseed, afterAlone, hentry]
      exact (h _ b (Icfg.cfg?_eq_ofBody.mp hc).2).solution.entry_after.ge
  along {e f} he hf := by
    have hlinked : ∀ m b, code m = some b → b.Linked := fun m b hb => (hwell m b hb).linked
    cases Icfg.mem_edges_iff_joins.mp he with
    | normal hm _ hq =>
        have hb := (Icfg.cfg?_eq_ofBody.mp hm).2
        exact hf.trans (afterAlone_le_beforeAlone h hb (hlinked _ _ hb) hq)
    | callToReturn hm hs => exact callToReturn_le_alone h hlinked hm hs hf
    | call hm hs hk hkc =>
        have hb := (Icfg.cfg?_eq_ofBody.mp hm).2
        have hb' := (Icfg.cfg?_eq_ofBody.mp hkc).2
        have hatoms := isAtom_of_mem_args hplain hm hs
        rw [alongEdge_call hm hs hkc, beforeAlone, if_pos rfl]
        refine (passArguments_le_boundary (hf.trans ((h _ _ hb).le_knowable _)) hatoms
          (hint.arguments hb hs hk hb')).trans ?_
        exact (h _ _ hb').solution.entry_after.ge
    | ret hm hs hk hkc => exact ret_le_alone h hint hlinked hm hs hk hkc hf
  flow hn hf := flow_le_alone h hwell (fun _ _ => hint.divides) hn hf

end

/-! ## The result -/

/-- What is known of a method in a program is below what is known of it alone: after every point, and
before every point but the entry. -/
structure Refines (s : Solution ProgramPoint Env) (m : MethodId) (b : Body)
    (alone : Solution Point Env) : Prop where
  after {p : Point} : p ∈ b.points → ∃ f f', s.after.get? ⟨p, m⟩ = some f ∧
    alone.after.get? p = some f' ∧ f.get ≤ f'.get
  before {p : Point} : p ∈ b.points → p ≠ .entry → ∃ f f', s.before.get? ⟨p, m⟩ = some f ∧
    alone.before.get? p = some f' ∧ f.get ≤ f'.get

theorem refines_of_returns {cg : CallGraph} {code : MethodId → Option Body}
    {before after : MethodId → Point → Env} {m : MethodId} {b : Body}
    (hlinked : ∀ m b, code m = some b → b.Linked)
    (hceiling : Ceiling (.ofCallGraph cg code) (beforeAlone before after) (afterAlone after))
    {s : Solution ProgramPoint Env} (hs : Returns (.ofCallGraph cg code) s)
    (hm : (Icfg.ofCallGraph cg code).cfg? m = some (.ofBody b)) {alone : Solution Point Env}
    (halone : Constants.Agrees b alone (before m) (after m)) : Refines s m b alone := by
  obtain ⟨facts, hsolved, rfl⟩ := solved_of_returns hlinked hs
  have hcovers := Problem.covers_reached hsolved.reached
  have hnode : ∀ p ∈ b.points, (⟨p, m⟩ : ProgramPoint) ∈ (Icfg.ofCallGraph cg code).nodes :=
    fun p hp => Icfg.mem_nodes.mpr ⟨_, hm, hp⟩
  refine ⟨fun {p} hp => ?_, fun {p} hp hne => ?_⟩
  · obtain ⟨_, f', hf', heq⟩ := halone p hp
    refine ⟨_, f', Problem.get?_far hcovers (hnode p hp), hf', ?_⟩
    rw [heq]
    exact hceiling.far_le hsolved.reached ⟨p, m⟩
  · obtain ⟨⟨f', hf', heq⟩, _⟩ := halone p hp
    refine ⟨_, f', Problem.get?_near hcovers (hnode p hp), hf', ?_⟩
    have hle := hceiling.near_le hsolved (hnode p hp) hne
    rw [beforeAlone, if_neg hne] at hle
    rw [heq]
    exact hle

/-- **Interprocedural constants refine intraprocedural ones**, for every program in which quotients
have literal operands and calls match what they call. The solver for the program returns, and what it
knows of a reachable method is at least as precise as what any solver finds out about the method
alone. -/
theorem refines_of_matched [Nesting] {p : Program} (hp : p.Parsed) (entry : MethodId)
    (hint : IntMatched p.hierarchy.body? (p.hierarchy.callGraph entry).callees) :
    (∃ s, Returns (p.icfg entry) s) ∧ ∀ s, Returns (p.icfg entry) s →
      ∀ m ∈ (p.hierarchy.callGraph entry).reachable, ∀ b, p.hierarchy.body? m = some b →
        (∀ solver, ∃ alone, Constants.Returns (.ofBody b) solver alone) ∧
          ∀ solver alone, Constants.Returns (.ofBody b) solver alone → Refines s m b alone := by
  have hwell : ∀ m b, p.hierarchy.body? m = some b → b.WellFormed :=
    fun m b hb => (hp.wellFormed hb).1
  have hplain : ∀ m b, p.hierarchy.body? m = some b → ∀ s ∈ b.stmts, s.isPlain = true :=
    fun m b hb => (hp.wellFormed hb).2
  -- a solution for each method, chosen for all of them at once
  have hmethods : ∀ m, ∃ before after : Point → Env, ∀ b, p.hierarchy.body? m = some b →
      SolvedAlone b before after := by
    intro m
    cases hb : p.hierarchy.body? m with
    | none => exact ⟨fun _ => .empty, fun _ => .empty, fun b hq => absurd hq (by simp)⟩
    | some b =>
        obtain ⟨before, after, h⟩ := exists_solvedAlone (hwell m b hb) (hint.divides hb)
        exact ⟨before, after, fun b' hq => Option.some.inj hq ▸ h⟩
  choose before after halone using hmethods
  have hceiling := ceiling_alone halone hint hwell hplain
  refine ⟨exists_returns_of_knowable hwell (fun _ _ => hint.divides) hplain ?_, ?_⟩
  · intro facts n b hr hb
    exact (hceiling.far_le hr n).trans ((halone _ b hb).le_knowable n.point)
  · intro s hs m hm b hb
    refine ⟨(halone m b hb).returns, fun solver alone hsolver => ?_⟩
    exact refines_of_returns (fun m b hb => (hwell m b hb).linked) hceiling hs
      (Icfg.cfg?_ofBody hm hb) ((halone m b hb).agrees hsolver)

section

open Recursion (program main callee)

theorem intMatched_program (callees : CallSite → List MethodId) :
    IntMatched program.hierarchy.body? callees where
  divides hb := by
    unfold Body.DividesLiterals
    rcases eq_of_body?_program hb with rfl | rfl
    · decide
    · decide
  arguments {m k b b' i result c} hb hs _ hb' x e he := by
    have hparam : ∀ x ∈ b'.params, x.isIntLike = true := by
      rcases eq_of_body?_program hb' with rfl | rfl
      · decide
      · decide
    obtain ⟨hx, he⟩ := List.of_mem_zip he
    exact ⟨fun _ => hparam x hx, fun _ => isIntOperand_program hb hs e he⟩
  results {m k b b' i x c} hb hs _ hb' y hy := by
    have hreturned : ∀ y ∈ b'.returnVars, y.isIntLike = true := by
      rcases eq_of_body?_program hb' with rfl | rfl
      · decide
      · decide
    have hdefined : ∀ x ∈ b.stmts.filterMap Stmt.defined, x.isIntLike = true := by
      rcases eq_of_body?_program hb with rfl | rfl
      · decide
      · decide
    have hx : x ∈ b.stmts.filterMap Stmt.defined :=
      List.mem_filterMap.mpr ⟨_, List.mem_of_getElem? hs, rfl⟩
    exact ⟨fun _ => hdefined x hx, fun _ => hreturned y hy⟩

/-- The method that may call itself is known at least as well where it is called with seven as it is
alone. -/
theorem refines_of_matched_program :
    ∃ s alone, Returns (program.icfg main.method) s ∧
      Constants.Returns (.ofBody callee) .worklist alone ∧ Refines s callee.method callee alone := by
  obtain ⟨⟨s, hs⟩, hrefines⟩ :=
    refines_of_matched Recursion.parsed_program main.method (intMatched_program _)
  have hreached : callee.method ∈ (program.hierarchy.callGraph main.method).reachable := by
    decide +kernel
  obtain ⟨hreturns, hbelow⟩ := hrefines s hs callee.method hreached callee (by decide +kernel)
  obtain ⟨alone, halone⟩ := hreturns .worklist
  exact ⟨s, alone, hs, halone, hbelow .worklist alone halone⟩

end

end InterConstants

end TacFlow
