import TacFlow.Proofs.Calls.Refinement

/-!
# What is known of untracked variables across calls

Within a method nothing is ever known of an untracked variable: the boundary leaves it out, and no
transfer assigns it. Calls do not look at types. They bind an untracked parameter to a literal, and an
untracked result to the value of a tracked variable, and from there on the binding stays, because no
assignment to such a variable is seen.

So it depends on the calls. `IntKept` asks of a program that its calls hand nothing but untracked
variables on to untracked ones, and `Tight` asks it of the values in a solution. The first is enough
for any program, the second is needed in any program, and it is enough as well where facts only rise.
-/

namespace TacFlow

open Constants (assigned flow boundary SettledBy)

/-! ## Environments of tracked variables -/

namespace Constants

variable {f f' : Env} {s : Option Stmt} {x : Var}

/-- Anything may be known of tracked variables, and nothing of the others. -/
def trackable (x : Var) : Value :=
  if x.isIntLike = true then .nac else .unassigned

theorem le_trackable {m : Var → Value} :
    m ≤ trackable ↔ ∀ x, ¬ x.isIntLike = true → m x = .unassigned := by
  constructor
  · intro h x hx
    have hle := h x
    rw [trackable, if_neg hx] at hle
    exact Value.eq_of_le_unassigned hle
  · intro h x
    rw [trackable]
    split
    · exact Value.le_nac _
    · rename_i hx
      rw [h x hx]

theorem boundary_le_trackable (b : Body) : (boundary b).get ≤ trackable := by
  refine le_trackable.mpr fun x hx => ?_
  rw [get_boundary, if_neg fun h => hx h.2]

theorem flow_le_trackable (s : Option Stmt) (hf : f.get ≤ trackable) : flow s f ≤ trackable := by
  refine le_trackable.mpr fun x hx => ?_
  rw [flow_kept, le_trackable.mp hf x hx]
  -- no statement assigns an untracked variable
  intro v hv
  obtain ⟨_, _, hv⟩ := Option.bind_eq_some_iff.mp hv
  obtain ⟨_, _, hint, _⟩ := definition_of_assigned hv
  exact hx hint

theorem SettledBy.flow_le (h : SettledBy s f f') : flow s f ≤ f'.get := by
  intro y
  by_cases hy : ∃ v, s.bind (assigned f) = some (y, v)
  · obtain ⟨v, hv⟩ := hy
    rw [flow_assigned hv, h.assigns hv]
  · have hk : ∀ v, s.bind (assigned f) ≠ some (y, v) := fun v hv => hy ⟨v, hv⟩
    rw [flow_kept hk]
    -- what has no value is below anything; only values are promised to be kept
    by_cases hnone : f.get y = .unassigned
    · rw [hnone]
      exact Value.unassigned_le _
    · rw [h.keeps hk hnone]

end Constants

/-- An environment without what it knows of untracked variables. -/
def Env.clip (f : Env) : Env where
  entries := f.entries.filter (·.1.isIntLike)
  nodup := f.nodup.sublist (List.filter_sublist.map _)
  defined e h := f.defined e (List.mem_filter.mp h).1

theorem Env.get_clip (f : Env) (x : Var) :
    f.clip.get x = if x.isIntLike = true then f.get x else .unassigned := by
  have hmem : ∀ v, (x, v) ∈ f.clip.entries ↔ (x, v) ∈ f.entries ∧ x.isIntLike = true := fun v =>
    List.mem_filter
  split
  · rename_i hx
    exact get_eq_of_entries fun v => (hmem v).trans (and_iff_left hx)
  · rename_i hx
    by_contra hv
    exact hx ((hmem _).mp (mem_entries.mpr ⟨rfl, hv⟩)).2

theorem Env.le_clip {f : Env} {m : Var → Value} :
    m ≤ f.clip.get ↔ m ≤ f.get ∧ m ≤ Constants.trackable := by
  constructor
  · intro h
    refine ⟨fun x => (h x).trans ?_, fun x => (h x).trans ?_⟩
    · rw [get_clip]
      split
      · exact le_rfl
      · exact Value.unassigned_le _
    · rw [get_clip, Constants.trackable]
      split
      · exact Value.le_nac _
      · exact le_rfl
  · rintro ⟨hf, ht⟩ x
    rw [get_clip]
    split
    · exact hf x
    · rename_i hx
      rw [Constants.le_trackable.mp ht x hx]

namespace InterConstants

open Constants (trackable)

variable {cg : CallGraph} {code : MethodId → Option Body} {before after : ProgramPoint → Env}
  {e : FlowEdge} {f : Env} {m k : MethodId} {b b' : Body} {i : Nat} {result : Option Var} {call : Call}
  {x : Var}

/-! ## What calls hand on -/

/-- By the values after the points of a program, its calls hand on nothing to untracked variables. -/
structure Tight (cg : CallGraph) (code : MethodId → Option Body) (after : ProgramPoint → Env) :
    Prop where
  /-- The argument for an untracked parameter has no value. -/
  arguments {m k : MethodId} {b b' : Body} {i : Nat} {result : Option Var} {call : Call} {x : Var}
    {arg : Expr} : (Icfg.ofCallGraph cg code).cfg? m = some (.ofBody b) →
    b.stmts[i]? = some (.invoke result call) → k ∈ cg.callees ⟨i, m⟩ →
    (Icfg.ofCallGraph cg code).cfg? k = some (.ofBody b') → (x, arg) ∈ b'.params.zip call.args →
    ¬ x.isIntLike = true → arg.eval (after ⟨.stmt i, m⟩) = .unassigned
  /-- What is returned into an untracked variable has no value. -/
  results {m k : MethodId} {b b' : Body} {i : Nat} {call : Call} {x y : Var} :
    (Icfg.ofCallGraph cg code).cfg? m = some (.ofBody b) →
    b.stmts[i]? = some (.invoke (some x) call) → k ∈ cg.callees ⟨i, m⟩ →
    (Icfg.ofCallGraph cg code).cfg? k = some (.ofBody b') → y ∈ b'.returnVars →
    ¬ x.isIntLike = true → (after ⟨.exit, k⟩).get y = .unassigned

/-- In the text of a program, calls hand on nothing but untracked variables to untracked ones. -/
structure IntKept (cg : CallGraph) (code : MethodId → Option Body) : Prop where
  /-- Literals and tracked variables are passed to tracked parameters only. -/
  arguments {m k : MethodId} {b b' : Body} {i : Nat} {result : Option Var} {call : Call} {x : Var}
    {arg : Expr} : (Icfg.ofCallGraph cg code).cfg? m = some (.ofBody b) →
    b.stmts[i]? = some (.invoke result call) → k ∈ cg.callees ⟨i, m⟩ →
    (Icfg.ofCallGraph cg code).cfg? k = some (.ofBody b') → (x, arg) ∈ b'.params.zip call.args →
    arg.isIntOperand = true → x.isIntLike = true
  /-- Tracked variables are returned into tracked ones only. -/
  results {m k : MethodId} {b b' : Body} {i : Nat} {call : Call} {x y : Var} :
    (Icfg.ofCallGraph cg code).cfg? m = some (.ofBody b) →
    b.stmts[i]? = some (.invoke (some x) call) → k ∈ cg.callees ⟨i, m⟩ →
    (Icfg.ofCallGraph cg code).cfg? k = some (.ofBody b') → y ∈ b'.returnVars →
    y.isIntLike = true → x.isIntLike = true

/-- Calls that keep tracked variables apart hand on nothing, as long as nothing else is known of
untracked ones. -/
theorem IntKept.tight (h : IntKept cg code)
    (hplain : ∀ m b, code m = some b → ∀ s ∈ b.stmts, s.isPlain = true)
    (hafter : ∀ n, (after n).get ≤ trackable) : Tight cg code after where
  arguments {m k b b' i result call x arg} hm hs hk hkc harg hx := by
    have hatom := isAtom_of_mem_args hplain hm hs arg (List.of_mem_zip harg).2
    exact Constants.eval_of_not_isIntOperand (Constants.le_trackable.mp (hafter _)) hatom fun hop =>
      hx (h.arguments hm hs hk hkc harg hop)
  results hm hs hk hkc hy hx :=
    Constants.le_trackable.mp (hafter _) _ fun hint => hx (h.results hm hs hk hkc hy hint)

theorem Tight.mono (h : Tight cg code after)
    (hplain : ∀ m b, code m = some b → ∀ s ∈ b.stmts, s.isPlain = true)
    (hle : ∀ n, (before n).get ≤ (after n).get) : Tight cg code before where
  arguments {m k b b' i result call x arg} hm hs hk hkc harg hx := by
    have hatom := isAtom_of_mem_args hplain hm hs arg (List.of_mem_zip harg).2
    have hmono := Constants.eval_atom_mono hatom (hle ⟨.stmt i, m⟩)
    rw [h.arguments hm hs hk hkc harg hx] at hmono
    exact Value.eq_of_le_unassigned hmono
  results {m k b b' i call x y} hm hs hk hkc hy hx := by
    have hmono := hle ⟨.exit, k⟩ y
    rw [h.results hm hs hk hkc hy hx] at hmono
    exact Value.eq_of_le_unassigned hmono

theorem passArguments_le_trackable {params : List Var} {args : List Expr}
    (h : ∀ x arg, (x, arg) ∈ params.zip args → ¬ x.isIntLike = true → arg.eval f = .unassigned) :
    (passArguments params args f).get ≤ trackable := by
  -- parameter by parameter, from the environment that knows nothing
  refine List.foldlRecOn (motive := fun k : Env => k.get ≤ trackable) _ _
    (fun y => Value.unassigned_le _) ?_
  rintro k hk ⟨x, arg⟩ hd
  refine Constants.le_trackable.mpr fun y hy => ?_
  rw [Env.get_set]
  split
  · rename_i hyx
    exact h x arg hd (hyx ▸ hy)
  · exact Constants.le_trackable.mp hk y hy

/-- **Edges bring nothing for untracked variables** unless calls hand something on to them. -/
theorem alongEdge_le_trackable (h : Tight cg code after) (hafter : ∀ n, (after n).get ≤ trackable)
    (he : e ∈ (Icfg.ofCallGraph cg code).edges) :
    (alongEdge (.ofCallGraph cg code) e (after e.source)).get ≤ trackable := by
  cases Icfg.mem_edges_iff_joins.mp he with
  | normal _ _ _ => exact hafter _
  | callToReturn hm hs =>
      intro y
      rw [get_alongEdge_callToReturn hm hs]
      split
      · exact Value.unassigned_le _
      · exact hafter _ y
  | call hm hs hk hkc =>
      rw [alongEdge_call hm hs hkc]
      exact passArguments_le_trackable fun x arg harg hx => h.arguments hm hs hk hkc harg hx
  | ret hm hs hk hkc =>
      refine Constants.le_trackable.mpr fun y hy => ?_
      rw [get_alongEdge_ret hm hs]
      split
      · rename_i hres
        subst hres
        exact Value.eq_of_le_unassigned
          (returnedValue_le fun z hz => (h.results hm hs hk hkc hz hy).le)
      · rfl

theorem seed_le_trackable (cg : CallGraph) (code : MethodId → Option Body) (n : ProgramPoint) :
    (seed (.ofCallGraph cg code) n).get ≤ trackable := by
  rcases seed_cases cg code n with hseed | ⟨_, _, b, _, hseed⟩
  · rw [hseed]
    exact fun y => Value.unassigned_le _
  · rw [hseed]
    exact Constants.boundary_le_trackable b

/-! ## Solved facts -/

section

variable {facts : Facts ProgramPoint Env} {n : ProgramPoint}

/-- What flows into a point is known of tracked variables only. -/
theorem merged_le_trackable
    (ht : Tight cg code ((problem (.ofCallGraph cg code)).farOf facts))
    (hfar : ∀ n, ((problem (.ofCallGraph cg code)).farOf facts n).get ≤ trackable)
    (n : ProgramPoint) :
    ((problem (.ofCallGraph cg code)).merged facts n).get ≤ trackable :=
  merged_le_iff.mpr ⟨seed_le_trackable cg code n, fun _ he =>
    alongEdge_le_trackable ht hfar (mem_inEdges.mp he).1⟩

/-- **Whatever the solver visits, it learns nothing of untracked variables** where the calls keep them
apart from tracked ones. -/
theorem IntKept.far_le_trackable (h : IntKept cg code)
    (hplain : ∀ m b, code m = some b → ∀ s ∈ b.stmts, s.isPlain = true)
    (hr : (problem (.ofCallGraph cg code)).Reached (visited (.ofCallGraph cg code)) facts)
    (n : ProgramPoint) : ((problem (.ofCallGraph cg code)).farOf facts n).get ≤ trackable := by
  refine Problem.far_of_reached (fun n hn => (mem_visited.mp hn).1)
    (P := fun _ f => f.get ≤ trackable) ?_ (seed_le_trackable cg code) ?_ hr n
  · exact fun n y => Value.unassigned_le _
  · -- one visit: the calls are tight by the facts so far, and so nothing new comes in
    intro facts n _ hfar
    have hmerged := merged_le_trackable (h.tight hplain hfar) hfar n
    change (transfer _ n _ _).get ≤ _
    rw [transfer_eq]
    exact Constants.get_transferStmt_le (Constants.flow_le_trackable _ hmerged) (hfar n)

variable (hs : (problem (.ofCallGraph cg code)).Solved Env.get (visited (.ofCallGraph cg code)) facts)

include hs

/-- What flows in from outside is known after a point. -/
theorem seed_le_far (n : ProgramPoint) :
    (seed (.ofCallGraph cg code) n).get ≤ ((problem (.ofCallGraph cg code)).farOf facts n).get := by
  obtain ⟨p, m⟩ := n
  rcases seed_cases cg code ⟨p, m⟩ with hseed | ⟨hentry, hm, b, hc, hseed⟩
  · rw [hseed]
    exact fun y => Value.unassigned_le _
  · obtain rfl : p = .entry := hentry
    rw [hseed]
    exact boundary_le_of_solved hs hm hc (Icfg.mem_nodes.mpr ⟨_, hc, b.entry_mem_points⟩)

/-- The transfer of what flows into a point is known after it. -/
theorem flow_merged_le_far (hwell : ∀ m b, code m = some b → b.WellFormed)
    (hlit : ∀ m b, code m = some b → b.DividesLiterals)
    (hn : n ∈ (Icfg.ofCallGraph cg code).nodes) :
    flow (plainAt (.ofCallGraph cg code) n) ((problem (.ofCallGraph cg code)).merged facts n) ≤
      ((problem (.ofCallGraph cg code)).farOf facts n).get := by
  by_cases hv : n ∈ visited (.ofCallGraph cg code)
  · have hnear := (hs.settled hv).near.ge
    exact (flow_plainAt_mono hwell hlit hnear).trans (settled_of_solved hs hv).flow_le
  · -- an entry that no edge leads to, where nothing is assigned
    obtain ⟨hflag, hnone⟩ : isBoundary (.ofCallGraph cg code) n = true ∧
        (Icfg.ofCallGraph cg code).inEdges n = [] := by
      simpa [mem_visited, hn] using hv
    have hplain : plainAt (.ofCallGraph cg code) n = none := by
      simp only [isBoundary, Bool.and_eq_true, decide_eq_true_eq] at hflag
      simp [plainAt, Icfg.at?, hflag.1, Body.at?]
    rw [hplain]
    exact merged_le_iff.mpr ⟨seed_le_far hs n, fun e he => absurd he (by simp [hnone])⟩

/-- The solution without untracked variables is a ceiling, if its calls hand on nothing to them. -/
theorem ceiling_clip (hwell : ∀ m b, code m = some b → b.WellFormed)
    (hlit : ∀ m b, code m = some b → b.DividesLiterals)
    (hplain : ∀ m b, code m = some b → ∀ s ∈ b.stmts, s.isPlain = true)
    (ht : Tight cg code ((problem (.ofCallGraph cg code)).farOf facts)) :
    Ceiling (.ofCallGraph cg code)
      (fun n => ((problem (.ofCallGraph cg code)).merged facts n).clip)
      (fun n => ((problem (.ofCallGraph cg code)).farOf facts n).clip) where
  seed_before n := Env.le_clip.mpr ⟨(merged_le_iff.mp le_rfl).1, seed_le_trackable cg code n⟩
  seed_after n := Env.le_clip.mpr ⟨seed_le_far hs n, seed_le_trackable cg code n⟩
  along {e f} he hf := by
    have hclip : ∀ n, ((problem (.ofCallGraph cg code)).farOf facts n).clip.get ≤
        ((problem (.ofCallGraph cg code)).farOf facts n).get ∧
        ((problem (.ofCallGraph cg code)).farOf facts n).clip.get ≤ trackable :=
      fun n => Env.le_clip.mp le_rfl
    have htight := ht.mono hplain fun n => (hclip n).1
    -- below the solution because edges are monotone, and tracked because the calls stay tight
    refine Env.le_clip.mpr ⟨?_, ?_⟩
    · refine (alongEdge_mono hplain he (hf.trans (hclip e.source).1)).trans ?_
      exact (merged_le_iff.mp le_rfl).2 e (mem_inEdges.mpr ⟨he, rfl⟩)
    · exact (alongEdge_mono hplain he hf).trans
        (alongEdge_le_trackable htight (fun n => (hclip n).2) he)
  flow {n f} hn hf := by
    obtain ⟨hmerged, htracked⟩ := Env.le_clip.mp hf
    refine Env.le_clip.mpr ⟨?_, Constants.flow_le_trackable _ htracked⟩
    exact (flow_plainAt_mono hwell hlit hmerged).trans (flow_merged_le_far hs hwell hlit hn)

/-- Where facts only rise, a solution with calls that hand on nothing knows nothing of untracked
variables. -/
theorem Tight.far_le_trackable (hwell : ∀ m b, code m = some b → b.WellFormed)
    (hlit : ∀ m b, code m = some b → b.DividesLiterals)
    (hplain : ∀ m b, code m = some b → ∀ s ∈ b.stmts, s.isPlain = true)
    (ht : Tight cg code ((problem (.ofCallGraph cg code)).farOf facts)) (n : ProgramPoint) :
    ((problem (.ofCallGraph cg code)).farOf facts n).get ≤ trackable :=
  (Env.le_clip.mp ((ceiling_clip hs hwell hlit hplain ht).far_le hs.reached n)).2

theorem near_le_trackable (ht : Tight cg code ((problem (.ofCallGraph cg code)).farOf facts))
    (hfar : ∀ n, ((problem (.ofCallGraph cg code)).farOf facts n).get ≤ trackable)
    (hn : n ∈ (Icfg.ofCallGraph cg code).nodes) :
    ((problem (.ofCallGraph cg code)).nearOf facts n).get ≤ trackable := by
  by_cases hv : n ∈ visited (.ofCallGraph cg code)
  · rw [(hs.settled hv).near]
    exact merged_le_trackable ht hfar n
  · rw [Problem.nearOf_reached_of_notMem hs.reached hv hn]
    exact fun y => Value.unassigned_le _

theorem alongEdge_le_near (hlinked : ∀ m b, code m = some b → b.Linked)
    (he : e ∈ (Icfg.ofCallGraph cg code).edges) :
    (alongEdge (.ofCallGraph cg code) e
      ((problem (.ofCallGraph cg code)).farOf facts e.source)).get ≤
        ((problem (.ofCallGraph cg code)).nearOf facts e.target).get := by
  have hv := mem_visited_of_edge he (Icfg.target_mem_nodes hlinked he)
  rw [(hs.settled hv).near]
  exact (merged_le_iff.mp le_rfl).2 e (mem_inEdges.mpr ⟨he, rfl⟩)

/-- **Where nothing is known of untracked variables, no call hands anything on to them.** -/
theorem tight_of_near_le (hlinked : ∀ m b, code m = some b → b.Linked)
    (hparams : ∀ m b, code m = some b → b.params.Nodup)
    (hnear : ∀ n ∈ (Icfg.ofCallGraph cg code).nodes,
      ((problem (.ofCallGraph cg code)).nearOf facts n).get ≤ trackable) :
    Tight cg code ((problem (.ofCallGraph cg code)).farOf facts) where
  arguments {m k b b' i result call x arg} hm hstmt hk hkc harg hx := by
    have he := Icfg.call_mem_edges hm hstmt hk hkc
    have hbrought := (alongEdge_le_near hs hlinked he).trans
      (hnear _ (Icfg.target_mem_nodes hlinked he)) x
    -- a parameter has its own argument, because no other parameter has its name
    obtain ⟨j, hj⟩ := List.mem_iff_getElem?.mp harg
    obtain ⟨hxj, hargj⟩ := List.getElem?_zip_eq_some.mp hj
    have hb' := (Icfg.cfg?_eq_ofBody.mp hkc).2
    rw [alongEdge_call hm hstmt hkc, get_passArguments (hparams _ _ hb') hxj hargj, trackable,
      if_neg hx] at hbrought
    exact Value.eq_of_le_unassigned hbrought
  results {m k b b' i call x y} hm hstmt hk hkc hy hx := by
    have he := Icfg.ret_mem_edges hm hstmt hk hkc
    have hbrought := (alongEdge_le_near hs hlinked he).trans
      (hnear _ (Icfg.target_mem_nodes hlinked he)) x
    rw [get_alongEdge_ret hm hstmt, if_pos rfl, trackable, if_neg hx] at hbrought
    exact Value.eq_of_le_unassigned ((get_le_returnedValue _ hy).trans hbrought)

end

/-! ## The result -/

/-- A variable is bound somewhere in a solution. -/
def Binds (s : Solution ProgramPoint Env) (x : Var) : Prop :=
  ∃ n f, (s.before.get? n = some f ∨ s.after.get? n = some f) ∧ f.contains x = true

/-- Only tracked variables take part in a solution. -/
structure TracksOnly (s : Solution ProgramPoint Env) : Prop where
  /-- Bound variables are tracked. -/
  isIntLike {x : Var} : Binds s x → x.isIntLike = true
  /-- So the transfer sees every assignment to a bound variable. -/
  sees {x : Var} {stmt : Stmt} : Binds s x → stmt.call? = none → stmt.defined = some x →
    ∀ f, ∃ v, assigned f stmt = some (x, v)

theorem exists_assigned_of_defined {stmt : Stmt} (hcall : stmt.call? = none)
    (hd : stmt.defined = some x) (hx : x.isIntLike = true) (f : Env) :
    ∃ v, assigned f stmt = some (x, v) := by
  cases stmt with
  | assign place value =>
      cases place with
      | var y =>
          obtain rfl : y = x := Option.some.inj hd
          exact ⟨value.eval f, if_pos hx⟩
      | _ => exact absurd hd (by simp [Stmt.defined, Place.defined])
  | invoke result call => exact absurd hcall (by simp [Stmt.call?])
  | _ => exact absurd hd (by simp [Stmt.defined])

section

variable {facts : Facts ProgramPoint Env}
  (hs : (problem (.ofCallGraph cg code)).Solved Env.get (visited (.ofCallGraph cg code)) facts)

include hs

theorem tracksOnly_of_le (ht : Tight cg code ((problem (.ofCallGraph cg code)).farOf facts))
    (hfar : ∀ n, ((problem (.ofCallGraph cg code)).farOf facts n).get ≤ trackable) :
    TracksOnly facts.forward := by
  have hcovers := Problem.covers_reached hs.reached
  have hint : ∀ {x}, Binds facts.forward x → x.isIntLike = true := by
    rintro x ⟨n, f, hf, hx⟩
    have hle : f.get ≤ trackable := by
      rcases hf with hf | hf
      · have hn := hcovers.near ▸ Table.mem_nodes_of_get? hf
        obtain rfl := Option.some.inj ((Problem.get?_near hcovers hn).symm.trans hf)
        exact near_le_trackable hs ht hfar hn
      · have hn := hcovers.far ▸ Table.mem_nodes_of_get? hf
        obtain rfl := Option.some.inj ((Problem.get?_far hcovers hn).symm.trans hf)
        exact hfar n
    obtain ⟨v, hv⟩ := Env.contains_iff.mp hx
    obtain ⟨hget, hne⟩ := Env.mem_entries.mp hv
    by_contra hnot
    exact hne (hget.symm.trans (Constants.le_trackable.mp hle x hnot))
  exact ⟨hint, fun hx hcall hd => exists_assigned_of_defined hcall hd (hint hx)⟩

theorem near_le_of_tracksOnly (h : TracksOnly facts.forward) {n : ProgramPoint}
    (hn : n ∈ (Icfg.ofCallGraph cg code).nodes) :
    ((problem (.ofCallGraph cg code)).nearOf facts n).get ≤ trackable := by
  refine Constants.le_trackable.mpr fun x hx => ?_
  by_contra hne
  have hget := Problem.get?_near (Problem.covers_reached hs.reached) hn
  have hbound := Env.contains_iff.mpr ⟨_, Env.mem_entries.mpr ⟨rfl, hne⟩⟩
  exact hx (h.isIntLike ⟨n, _, Or.inl hget, hbound⟩)

end

/-- **Only tracked variables take part where calls keep them apart** from untracked ones. In any
program, a solution in which only tracked variables take part has calls that hand nothing on to other
variables. Where quotients have literal operands, that is all it takes. -/
theorem tracksOnly_of_intKept [Nesting] {p : Program} (hp : p.Parsed) (entry : MethodId)
    {s : Solution ProgramPoint Env} (hs : Returns (p.icfg entry) s) :
    (IntKept (p.hierarchy.callGraph entry) p.hierarchy.body? → TracksOnly s) ∧
      (TracksOnly s → Tight (p.hierarchy.callGraph entry) p.hierarchy.body? (afterAt s)) ∧
      ((∀ m b, p.hierarchy.body? m = some b → b.DividesLiterals) →
        Tight (p.hierarchy.callGraph entry) p.hierarchy.body? (afterAt s) → TracksOnly s) := by
  have hwell : ∀ m b, p.hierarchy.body? m = some b → b.WellFormed :=
    fun m b hb => (hp.wellFormed hb).1
  have hplain : ∀ m b, p.hierarchy.body? m = some b → ∀ s ∈ b.stmts, s.isPlain = true :=
    fun m b hb => (hp.wellFormed hb).2
  have hlinked : ∀ m b, p.hierarchy.body? m = some b → b.Linked :=
    fun m b hb => (hwell m b hb).linked
  obtain ⟨facts, hsolved, rfl⟩ := solved_of_returns hlinked hs
  refine ⟨fun hkept => ?_, fun honly => ?_, fun hlit htight => ?_⟩
  · have hfar := hkept.far_le_trackable hplain hsolved.reached
    exact tracksOnly_of_le hsolved (hkept.tight hplain hfar) hfar
  · exact tight_of_near_le hsolved hlinked (fun m b hb => nodup_params hp hb)
      fun n hn => near_le_of_tracksOnly hsolved honly hn
  · exact tracksOnly_of_le hsolved htight (Tight.far_le_trackable hsolved hwell hlit hplain htight)

theorem intKept_of_intMatched (h : IntMatched code cg.callees) : IntKept cg code where
  arguments hm hs hk hkc harg hop :=
    (h.arguments (Icfg.cfg?_eq_ofBody.mp hm).2 hs hk (Icfg.cfg?_eq_ofBody.mp hkc).2 _ _ harg).mp hop
  results hm hs hk hkc hy hint :=
    (h.results (Icfg.cfg?_eq_ofBody.mp hm).2 hs hk (Icfg.cfg?_eq_ofBody.mp hkc).2 _ hy).mp hint

/-- All variables of the method that may call itself are tracked. -/
theorem tracksOnly_of_intKept_program :
    ∃ s, Returns (Recursion.program.icfg Recursion.main.method) s ∧ TracksOnly s := by
  obtain ⟨s, hs⟩ : ∃ s, solveWithin (Recursion.program.icfg Recursion.main.method) 40 = some s :=
    Option.isSome_iff_exists.mp (by decide +kernel)
  have hreturns : Returns (Recursion.program.icfg Recursion.main.method) s := ⟨40, hs⟩
  obtain ⟨htracks, _, _⟩ :=
    tracksOnly_of_intKept Recursion.parsed_program Recursion.main.method hreturns
  exact ⟨s, hreturns, htracks (intKept_of_intMatched (intMatched_program _))⟩

end InterConstants

/-! ## A call that widens its argument -/

namespace Widening

/-- The parameter `long x`. -/
def wide : Var :=
  ⟨0, "x", .primitive .long⟩

/-- The method `void main()`, which passes a literal. -/
def main : Body where
  method := ⟨⟨"M", 0⟩, ⟨.primitive .void, "main", []⟩⟩
  params := []
  vars := []
  stmts := [
    .invoke none
      ⟨.static, ⟨⟨"M", 0⟩, ⟨.primitive .long, "g", [.primitive .long]⟩⟩, none, [.lit 3]⟩,
    .ret none]
  lines := [1, 1]

/-- The method `long g(long x)`, which assigns its parameter. -/
def callee : Body where
  method := ⟨⟨"M", 0⟩, ⟨.primitive .long, "g", [.primitive .long]⟩⟩
  params := [wide]
  vars := [wide]
  stmts := [.assign (.var wide) (.lit 5), .ret (some (.var wide))]
  lines := [1, 1]

def program : Program where
  hierarchy := {
    declared := [⟨⟨"M", 0⟩, false, false, none, [], [
      ⟨main.method, true, false, false, [], some main⟩,
      ⟨callee.method, true, false, false, ["x"], some callee⟩]⟩]
    members := [⟨"M", 0⟩] }
  main := none

open InterConstants (Returns Binds)

set_option maxRecDepth 100000 in
/-- The literal is bound to a parameter of type `long`, and the assignment of 5 to it is not seen. -/
theorem not_tracksOnly_program :
    program.Parsed ∧ ∃ s f, Returns (program.icfg main.method) s ∧
      s.after.get? ⟨.stmt 0, callee.method⟩ = some f ∧ f.get wide = .const 3 ∧
      Binds s wide ∧ ¬ wide.isIntLike = true := by
  refine ⟨Program.parsed_of_ofText
    ("class M\x7bstatic void main()\x7binvokestatic <M: long g(long)>(3);return;\x7d" ++
      "static long g(long x)\x7bx=5;return x;\x7d\x7d")
    (toList_append_of_eq String.toList_ofList String.toList_ofList) (by decide +kernel), ?_⟩
  have hout : ((InterConstants.solveWithin (program.icfg main.method) 40).bind fun s =>
      s.after.get? ⟨.stmt 0, callee.method⟩).map (·.get wide) = some (.const 3) := by
    decide +kernel
  obtain ⟨f, hf, hget⟩ := Option.map_eq_some_iff.mp hout
  obtain ⟨s, hs, hf⟩ := Option.bind_eq_some_iff.mp hf
  have hbound : f.contains wide = true :=
    Env.contains_iff.mpr ⟨_, Env.mem_entries.mpr ⟨hget, by simp⟩⟩
  exact ⟨s, f, ⟨40, hs⟩, hf, hget, ⟨_, f, Or.inr hf, hbound⟩, by decide⟩

end Widening

end TacFlow
