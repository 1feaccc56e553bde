import TacFlow.Proofs.Calls.Equations
import TacFlow.Proofs.Program.Resolution

/-!
# What the solver for whole programs returns is a fixed point

Before every point is the join of what its edges bring, and the transfer has nothing to add. That
much holds as it does within a method, and for the same reason: nothing is left to visit.

What the edges bring is more than a copy here. An edge into a method brings the values of arguments,
and that each parameter has one is a fact about programs that were read from a text: a call passes as
many arguments as its subsignature has types, and its callees have that subsignature. Around a call
everything is passed on but the value of the result, which comes from the exits of the callees alone.

The entry of the entry method is the one point that may be left out. It is not visited unless it is
called, and then the boundary is joined with what the calls bring.
-/

namespace TacFlow

/-- The interprocedural graph of a program, by class hierarchy analysis from an entry method. -/
abbrev Program.icfg (p : Program) (entry : MethodId) : Icfg :=
  .ofCallGraph (p.hierarchy.callGraph entry) p.hierarchy.body?

namespace InterConstants

variable {g : Icfg} {n : ProgramPoint} {e : FlowEdge} {f : Env} {x : Var} {j : Nat}
  {facts : Facts ProgramPoint Env}

/-! ## What is before a point -/

/-- The environment before a point in a solution. -/
def beforeAt (s : Solution ProgramPoint Env) (n : ProgramPoint) : Env :=
  (s.before.get? n).getD .empty

/-- The environment after a point in a solution. -/
def afterAt (s : Solution ProgramPoint Env) (n : ProgramPoint) : Env :=
  (s.after.get? n).getD .empty

/-- The join of what a variable is worth along all edges into a point, and of its boundary value if the
point is the entry of an entry method. -/
def joinedValue (g : Icfg) (after : ProgramPoint → Env) (n : ProgramPoint) (x : Var) : Value :=
  ((g.inEdges n).map fun e => (alongEdge g e (after e.source)).get x).foldl Value.join
    ((seed g n).get x)

theorem get_merged (x : Var) : ((problem g).merged facts n).get x =
    joinedValue g ((problem g).farOf facts) n x := by
  rw [merged_eq_foldl, Env.get_foldl_joinWith, List.map_map]
  rfl

/-! ## What calls bring -/

/-- What the argument at a position is worth behind the call that an edge comes from. -/
def passedValue (g : Icfg) (after : ProgramPoint → Env) (j : Nat) (e : FlowEdge) : Option Value :=
  match g.at? e.source with
  | some (.invoke _ call) => call.args[j]?.map (·.eval (after e.source))
  | _ => none

theorem get_foldl_set_of_notMem {ds : List (Var × Expr)} (hx : x ∉ ds.map (·.1)) (f acc : Env) :
    (ds.foldl (fun k (y, e) => k.set y (e.eval f)) acc).get x = acc.get x := by
  induction ds generalizing acc with
  | nil => rfl
  | cons d ds ih =>
      rw [List.map_cons, List.mem_cons, not_or] at hx
      rw [List.foldl_cons, ih hx.2, Env.get_set, if_neg hx.1]

/-- **A parameter has the value of its argument**, and of no other one, since parameters differ. -/
theorem get_passArguments {params : List Var} {args : List Expr} {arg : Expr} (hn : params.Nodup)
    (hx : params[j]? = some x) (ha : args[j]? = some arg) (f : Env) :
    (passArguments params args f).get x = arg.eval f := by
  -- generalised over what has been passed before
  have key : ∀ (params : List Var) (args : List Expr) (j : Nat) (acc : Env), params.Nodup →
      params[j]? = some x → args[j]? = some arg →
      ((params.zip args).foldl (fun k (y, e) => k.set y (e.eval f)) acc).get x = arg.eval f := by
    intro params
    induction params with
    | nil => intro args j acc _ hx; exact absurd hx (by simp)
    | cons y params ih =>
        intro args j acc hn hx ha
        cases args with
        | nil => exact absurd ha (by simp)
        | cons e args =>
            rw [List.nodup_cons] at hn
            rw [List.zip_cons_cons, List.foldl_cons]
            cases j with
            | zero =>
                obtain rfl : y = x := by simpa using hx
                obtain rfl : e = arg := by simpa using ha
                have hlater : y ∉ (params.zip args).map (·.1) := by
                  intro hmem
                  obtain ⟨d, hd, hq⟩ := List.mem_map.mp hmem
                  exact hn.1 (hq ▸ (List.of_mem_zip hd).1)
                rw [get_foldl_set_of_notMem hlater, Env.get_set, if_pos rfl]
            | succ j => exact ih args j _ hn.2 (by simpa using hx) (by simpa using ha)
  exact key params args j .empty hn hx ha

theorem returnedValue_eq (returned : List Var) (f : Env) :
    returnedValue returned f = (returned.map f.get).foldl Value.join .unassigned := by
  rw [returnedValue, List.foldl_map]

/-! ## Fixed points -/

/-- A solution in which no visit to a point would change anything, over every kind of edge. -/
structure IsFixedPoint (g : Icfg) (s : Solution ProgramPoint Env) : Prop where
  /-- Behind the entry of an entry method that nothing calls is the boundary. -/
  boundary {m : MethodId} {c : Cfg} : m ∈ g.entries → g.cfg? m = some c →
    g.inEdges ⟨.entry, m⟩ = [] → s.after.get? ⟨.entry, m⟩ = some (Constants.boundary c.body)
  /-- Every other point has its two environments. Before it is the join over all edges into it, with
  the boundary at the entry of an entry method. The transfer leaves what is after it as it is, and
  reports no change. -/
  point {n : ProgramPoint} : n ∈ g.nodes → (isBoundary g n = true → g.inEdges n ≠ []) →
    ∃ before after, s.before.get? n = some before ∧ s.after.get? n = some after ∧
      (∀ x, before.get x = joinedValue g (afterAt s) n x) ∧
      ((problem g).transfer n before after).get = after.get ∧
      (problem g).changes before after n = false
  /-- All edges into the entry of a method are calls of it. Each of them passes a value for every
  parameter, and before the entry is the join of these, with the boundary value in an entry method. -/
  parameter {m : MethodId} {c : Cfg} {j : Nat} {x : Var} : g.cfg? m = some c →
    (isBoundary g ⟨.entry, m⟩ = true → g.inEdges ⟨.entry, m⟩ ≠ []) →
    c.body.params[j]? = some x → ∃ values : List Value,
      (∀ e ∈ g.inEdges ⟨.entry, m⟩, ∃ site, e.kind = .call site m) ∧
      (g.inEdges ⟨.entry, m⟩).map (passedValue g (afterAt s) j) = values.map some ∧
      (beforeAt s ⟨.entry, m⟩).get x = values.foldl Value.join ((seed g ⟨.entry, m⟩).get x)
  /-- An edge out of a call leads into a callee, or it leads past the call and brings nothing for the
  variable that takes the result. -/
  past {e : FlowEdge} {x : Var} {call : Call} : e ∈ g.edges →
    g.at? e.source = some (.invoke (some x) call) →
    (∃ site k, e.kind = .call site k ∧ e.target = ⟨.entry, k⟩) ∨
      e.kind = .callToReturn ∧ (alongEdge g e (afterAt s e.source)).get x = .unassigned
  /-- An edge back from a callee comes from its exit and leads to where the call goes on. It brings a
  value for the variable that takes the result and for no other: the join of the returned variables at
  the exit. -/
  back {e : FlowEdge} {site : CallSite} {k : MethodId} {returned : List Var} : e ∈ g.edges →
    e.kind = .ret site k returned → ∃ result call c,
      g.at? ⟨.stmt site.index, site.method⟩ = some (.invoke result call) ∧ g.cfg? k = some c ∧
      e.source = ⟨.exit, k⟩ ∧ e.target ∈ g.returnSites site ∧
      ∀ x, (alongEdge g e (afterAt s ⟨.exit, k⟩)).get x =
        if result = some x then
          (c.body.returnVars.map (afterAt s ⟨.exit, k⟩).get).foldl Value.join .unassigned
        else .unassigned

theorem mem_visited_of_called (hn : n ∈ g.nodes)
    (hcalled : isBoundary g n = true → g.inEdges n ≠ []) : n ∈ visited g := by
  refine mem_visited.mpr ⟨hn, ?_⟩
  cases hflag : isBoundary g n with
  | false => exact Or.inl rfl
  | true => exact Or.inr (hcalled hflag)

/-- The entry of an entry method keeps what it starts with if nothing calls the method. -/
theorem get?_far_of_uncalled {m : MethodId} (hr : (problem g).Reached (visited g) facts)
    (hn : (⟨.entry, m⟩ : ProgramPoint) ∈ g.nodes) (hm : m ∈ g.entries)
    (hnone : g.inEdges ⟨.entry, m⟩ = []) :
    facts.forward.after.get? ⟨.entry, m⟩ = some (seed g ⟨.entry, m⟩) := by
  have hunvisited : (⟨.entry, m⟩ : ProgramPoint) ∉ visited g := by
    simp [mem_visited, isBoundary, hm, hnone]
  have hfar := Problem.farOf_reached_of_notMem hr hunvisited hn
  have hget := Problem.get?_far (Problem.covers_reached hr) hn
  rw [hfar] at hget
  exact hget

section

variable (h : (problem g).Solved Env.get (visited g) facts)

include h

theorem point_of_solved (hn : n ∈ g.nodes) (hv : n ∈ visited g) :
    ∃ before after, facts.forward.before.get? n = some before ∧
      facts.forward.after.get? n = some after ∧
      (∀ x, before.get x = joinedValue g (afterAt facts.forward) n x) ∧
      ((problem g).transfer n before after).get = after.get ∧
      (problem g).changes before after n = false := by
  have hc := Problem.covers_reached h.reached
  have hsettled := h.settled hv
  refine ⟨_, _, Problem.get?_near hc hn, Problem.get?_far hc hn, ?_, hsettled.far, ?_⟩
  · intro x
    have hnear := congrFun hsettled.near x
    rw [get_merged] at hnear
    exact hnear
  · by_contra hflag
    rw [Bool.not_eq_false, (lawful g).changes_iff] at hflag
    exact hflag hsettled.far

end

/-! ## The edges of a call -/

section

variable {cg : CallGraph} {code : MethodId → Option Body} {call : Call} {site : CallSite}
  {k : MethodId} {returned : List Var}

/-- Out of a call there are edges into callees, and edges past it that drop the result. -/
theorem past_of_mem_edges (he : e ∈ (Icfg.ofCallGraph cg code).edges)
    (hat : (Icfg.ofCallGraph cg code).at? e.source = some (.invoke (some x) call)) (f : Env) :
    (∃ site k, e.kind = .call site k ∧ e.target = ⟨.entry, k⟩) ∨
      e.kind = .callToReturn ∧ (alongEdge (.ofCallGraph cg code) e f).get x = .unassigned := by
  cases Icfg.mem_edges_iff_joins.mp he with
  | normal hm hcall _ =>
      rw [Icfg.at?_ofCallGraph hm] at hat
      rw [hat] at hcall
      exact absurd hcall (by simp [Stmt.call?])
  | callToReturn hm hs =>
      obtain ⟨rfl, _⟩ : _ = some x ∧ _ = call := by
        simpa using Option.some.inj ((Icfg.at?_stmt hm hs).symm.trans hat)
      exact Or.inr ⟨rfl, (get_alongEdge_callToReturn hm hs _ f x).trans (if_pos rfl)⟩
  | call _ _ _ _ => exact Or.inl ⟨_, _, rfl, rfl⟩
  | ret _ _ _ hkc =>
      rw [Icfg.at?_ofCallGraph hkc] at hat
      exact absurd hat (by simp [Body.at?])

/-- Edges back from a callee bring the join of its returned variables, for the result only. -/
theorem back_of_mem_edges (he : e ∈ (Icfg.ofCallGraph cg code).edges)
    (hkind : e.kind = .ret site k returned) (f : Env) : ∃ result call c,
      (Icfg.ofCallGraph cg code).at? ⟨.stmt site.index, site.method⟩ = some (.invoke result call) ∧
      (Icfg.ofCallGraph cg code).cfg? k = some c ∧ e.source = ⟨.exit, k⟩ ∧
      e.target ∈ (Icfg.ofCallGraph cg code).returnSites site ∧
      ∀ x, (alongEdge (.ofCallGraph cg code) e f).get x =
        if result = some x then (c.body.returnVars.map f.get).foldl Value.join .unassigned
        else .unassigned := by
  cases Icfg.mem_edges_iff_joins.mp he with
  | normal _ _ _ => exact absurd hkind (by simp)
  | callToReturn _ _ => exact absurd hkind (by simp)
  | call _ _ _ _ => exact absurd hkind (by simp)
  | @ret m k b b' i result call hm hs hk hkc =>
      cases hkind
      refine ⟨result, call, _, Icfg.at?_stmt hm hs, hkc, rfl, ?_, fun x => ?_⟩
      · rw [Icfg.returnSites, hm]
        exact List.mem_map_of_mem (Icfg.following_mem_succs hs)
      · rw [get_alongEdge_ret hm hs, returnedValue_eq]
        rfl

end

/-! ## The edges of a program -/

section

variable [Nesting] {p : Program} (hp : p.Parsed) {entry m k : MethodId} {b b' : Body} {i : Nat}
  {result : Option Var} {call : Call}

include hp

/-- **A call passes as many arguments as any of its callees has parameters.** -/
theorem length_args_eq (hb : p.hierarchy.body? m = some b)
    (hs : b.stmts[i]? = some (.invoke result call))
    (hk : k ∈ (p.hierarchy.callGraph entry).callees ⟨i, m⟩) (hb' : p.hierarchy.body? k = some b') :
    call.args.length = b'.params.length := by
  obtain ⟨_, _, _, hresolves⟩ := hp.resolves hb
  obtain ⟨src', _, hsubsig', hresolves'⟩ := hp.resolves hb'
  have hargs := (hresolves.calls (List.mem_of_getElem? hs) rfl).args
  -- the callee was found for this very call, so it has the subsignature that the call names
  have hsubsig : k.subsig = call.target.subsig := by
    obtain ⟨e, he, hsite, rfl⟩ := CallGraph.mem_callees.mp hk
    obtain ⟨_, c, ⟨b₀, _, hb₀, hs₀⟩, _, htarget⟩ := Hierarchy.mem_edges_callGraph.mp he
    rw [hsite] at hb₀ hs₀
    obtain rfl : b = b₀ := Option.some.inj (hb.symm.trans hb₀)
    obtain rfl : call = c := by
      have hsame := Option.some.inj (hs.symm.trans hs₀)
      injection hsame
    exact Hierarchy.subsig_of_mem_callTargets hp.classes_wellFormed htarget
  have hparams := congrArg List.length hresolves'.params
  rw [List.length_map] at hparams
  rw [hargs, ← hsubsig, ← hsubsig', hparams]
  simp [Source.Method.subsig]

theorem nodup_params (hb : p.hierarchy.body? m = some b) : b.params.Nodup := by
  obtain ⟨_, _, _, hresolves⟩ := hp.resolves hb
  exact (List.Nodup.of_map _ hresolves.names).sublist hresolves.front.sublist

/-- An edge into the entry of a method is a call of it, and brings for a parameter the value that the
call passes. -/
theorem passedValue_eq (hm : (p.icfg entry).cfg? m = some (.ofBody b))
    (hx : b.params[j]? = some x) (he : e ∈ (p.icfg entry).inEdges ⟨.entry, m⟩) :
    (∃ site, e.kind = .call site m) ∧ ∀ after, passedValue (p.icfg entry) after j e =
      some ((alongEdge (p.icfg entry) e (after e.source)).get x) := by
  obtain ⟨hmem, htarget⟩ := mem_inEdges.mp he
  have hb := (Icfg.cfg?_eq_ofBody.mp hm).2
  cases Icfg.mem_edges_iff_joins.mp hmem with
  | @normal m' b₀ q r hm' hcall hr =>
      have hlinked := (hp.wellFormed (Icfg.cfg?_eq_ofBody.mp hm').2).1.linked
      have hentry : r = .entry := congrArg ProgramPoint.point htarget
      exact absurd hentry (Cfg.Linked.mem_succs hlinked hr).2
  | callToReturn hm' hs =>
      have hentry : Body.following _ _ = .entry := congrArg ProgramPoint.point htarget
      exact absurd hentry Cfg.following_ne_entry
  | ret hm' hs hk hkc =>
      have hentry : Body.following _ _ = .entry := congrArg ProgramPoint.point htarget
      exact absurd hentry Cfg.following_ne_entry
  | @call m' k b₀ b' i result call hm' hs hk hkc =>
      obtain rfl : k = m := congrArg ProgramPoint.method htarget
      obtain rfl : b' = b := Option.some.inj ((Icfg.cfg?_eq_ofBody.mp hkc).2.symm.trans hb)
      have hlength := length_args_eq hp (Icfg.cfg?_eq_ofBody.mp hm').2 hs hk hb
      have hj : j < call.args.length := by
        rw [hlength]
        exact (List.getElem?_eq_some_iff.mp hx).1
      have harg : call.args[j]? = some call.args[j] := List.getElem?_eq_getElem hj
      have hat := Icfg.at?_stmt hm' hs
      refine ⟨⟨_, rfl⟩, fun after => ?_⟩
      rw [alongEdge_call hm' hs hkc, get_passArguments (nodup_params hp hb) hx harg, passedValue]
      simp only [hat, harg]
      rfl

end

/-! ## The result -/

/-- **What the solver returns is a fixed point over all kinds of edges**, for every program that was
read from a text and every entry method. -/
theorem fixedPoint_of_returns [Nesting] {p : Program} (hp : p.Parsed) (entry : MethodId)
    {s : Solution ProgramPoint Env} (hs : Returns (p.icfg entry) s) :
    IsFixedPoint (p.icfg entry) s := by
  obtain ⟨facts, hsolved, rfl⟩ := solved_of_returns (fun m b hb => (hp.wellFormed hb).1.linked) hs
  have hentry : ∀ {m c}, (p.icfg entry).cfg? m = some c →
      (⟨.entry, m⟩ : ProgramPoint) ∈ (p.icfg entry).nodes :=
    fun hm => Icfg.mem_nodes.mpr ⟨_, hm, Body.entry_mem_points _⟩
  refine ⟨?_, fun hn hcalled => point_of_solved hsolved hn (mem_visited_of_called hn hcalled), ?_,
    fun he hat => past_of_mem_edges he hat _, fun he hkind => back_of_mem_edges he hkind _⟩
  · intro m c hm hc hnone
    have hfar := get?_far_of_uncalled hsolved.reached (hentry hc) hm hnone
    rwa [seed_of_entry hm hc] at hfar
  · intro m c j x hm hcalled hx
    obtain ⟨_, b, _, rfl⟩ := Icfg.cfg?_eq_some.mp hm
    obtain ⟨before, _, hbefore, _, hjoined, _⟩ :=
      point_of_solved hsolved (hentry hm) (mem_visited_of_called (hentry hm) hcalled)
    refine ⟨((p.icfg entry).inEdges ⟨.entry, m⟩).map fun e =>
        (alongEdge (p.icfg entry) e (afterAt facts.forward e.source)).get x, ?_, ?_, ?_⟩
    · exact fun e he => (passedValue_eq hp hm hx he).1
    · rw [List.map_map]
      exact List.map_congr_left fun e he => (passedValue_eq hp hm hx he).2 _
    · rw [beforeAt, hbefore]
      exact hjoined x

/-- The solver returns for a program whose entry method calls one that may call itself. -/
theorem fixedPoint_of_returns_program :
    ∃ s, Returns (Recursion.program.icfg Recursion.main.method) s ∧
      IsFixedPoint (Recursion.program.icfg Recursion.main.method) s := by
  obtain ⟨s, hs⟩ : ∃ s, solveWithin (Recursion.program.icfg Recursion.main.method) 40 = some s :=
    Option.isSome_iff_exists.mp (by decide +kernel)
  exact ⟨s, ⟨40, hs⟩, fixedPoint_of_returns Recursion.parsed_program Recursion.main.method ⟨40, hs⟩⟩

end InterConstants

end TacFlow
