import TacFlow.Proofs.Calls.Equations
import TacFlow.Proofs.Calls.Execution
import TacFlow.Proofs.Constant.Soundness

/-!
# Soundness of constant propagation across methods

At every statement that the running frame arrives at, the environment before the statement describes
the variables of the frame.

The analysis merges all calls of a method, while an execution goes back to the very call that it
came from. What is known behind a call is therefore put together from two environments: what the
callee returns comes from the exit of the callee, and everything else from the call itself, where the
calling frame has been waiting. So the waiting frames have to stay described while others run, and
that is the invariant.

Variables that are not tracked are invisible to the analysis. Within a body `isIntClosed` keeps them
away from tracked ones, and `IntTyped` does the same for arguments and results.
-/

namespace TacFlow

open Relation (ReflTransGen)

/-- Whether an expression is a literal or a tracked variable. -/
def Expr.isIntOperand : Expr → Bool
  | .lit _ => true
  | .var x => x.isIntLike
  | _ => false

/-- Tracked variables get their values from literals and tracked variables, also across calls. -/
structure IntTyped (code : MethodId → Option Body) (callees : CallSite → List MethodId) : Prop where
  /-- Within bodies. -/
  bodies {m : MethodId} {b : Body} : code m = some b → b.isIntClosed = true
  /-- From the arguments of a call to the parameters of a callee. -/
  arguments {m k : MethodId} {b b' : Body} {i : Nat} {result : Option Var} {c : Call} :
    code m = some b → b.stmts[i]? = some (.invoke result c) → k ∈ callees ⟨i, m⟩ →
    code k = some b' → ∀ x e, (x, e) ∈ b'.params.zip c.args → x.isIntLike = true →
      e.isIntOperand = true
  /-- From the returned variables of a callee to the result of a call. -/
  results {m k : MethodId} {b b' : Body} {i : Nat} {x : Var} {c : Call} :
    code m = some b → b.stmts[i]? = some (.invoke (some x) c) → k ∈ callees ⟨i, m⟩ →
    code k = some b' → x.isIntLike = true → ∀ y ∈ b'.returnVars, y.isIntLike = true

/-! ## Arguments and results -/

theorem Env.Describes.set {f : Env} {σ : Store} (hf : f.Describes σ) {x : Var} {a : Value}
    {v : Option Word} (ha : x.isIntLike = true → ∀ u, v = some u → a.Admits u) :
    (f.set x a).Describes (σ.set x v) := by
  intro y u hy hu
  rw [Env.get_set]
  by_cases hyx : y = x
  · rw [if_pos hyx]
    have hv : v = some u := by simpa [Store.set, hyx] using hu
    exact ha (hyx ▸ hy) u hv
  · rw [if_neg hyx]
    have hσ : σ y = some u := by simpa [Store.set, hyx] using hu
    exact hf y u hy hσ

theorem Env.Describes.admits_operand {f : Env} {σ : Store} (hf : f.Describes σ) {e : Expr}
    (he : e.isIntOperand = true) {u : Word} (hu : σ.value e = some u) : (e.eval f).Admits u := by
  unfold Expr.isIntOperand at he
  split at he
  · rename_i n
    cases hu
    exact Or.inr (congrArg Value.const (wrap32_eq n))
  · exact hf _ u he hu
  · exact absurd he (by simp)

/-- What one element brings about, and all others keep, holds at the end of a loop over a list that
the element is in. -/
theorem foldl_of_mem {α β : Type} {P : β → Prop} {f : β → α → β} {as : List α} {a : α}
    (ha : a ∈ as) (hkeep : ∀ b x, P b → P (f b x)) (hadd : ∀ b, P (f b a)) (b : β) :
    P (as.foldl f b) := by
  have hkept : ∀ (xs : List α) (b : β), P b → P (xs.foldl f b) := by
    intro xs
    induction xs with
    | nil => exact fun b hb => hb
    | cons x xs ih => exact fun b hb => ih (f b x) (hkeep b x hb)
  induction as generalizing b with
  | nil => exact absurd ha (by simp)
  | cons x as ih =>
      rw [List.foldl_cons]
      rcases List.mem_cons.mp ha with rfl | ha
      · exact hkept as _ (hadd b)
      · exact ih ha (f b x)

namespace InterConstants

/-- **The environment that enters a callee describes its parameters.** -/
theorem describes_passArguments {f : Env} {σ : Store} (hf : f.Describes σ) {params : List Var}
    {args : List Expr} (hargs : ∀ x e, (x, e) ∈ params.zip args → x.isIntLike = true →
      e.isIntOperand = true) :
    (passArguments params args f).Describes (σ.passed params args) := by
  have hnothing : Env.empty.Describes fun _ => none := fun _ _ _ hv => absurd hv (by simp)
  -- both sides take in one parameter after the other
  refine List.foldl_rel hnothing ?_
  rintro ⟨x, e⟩ hd h τ hτ
  refine hτ.set ?_
  intro hx u hu
  exact hf.admits_operand (hargs x e hd hx) hu

/-- What is returned may be any of the returned variables. -/
theorem get_le_returnedValue (f : Env) {returned : List Var} {y : Var} (hy : y ∈ returned) :
    f.get y ≤ returnedValue returned f := by
  refine foldl_of_mem hy ?_ ?_ Value.unassigned
  · intro v x hle
    exact hle.trans le_sup_left
  · intro v
    exact le_sup_right

/-! ## The invariant -/

variable {cg : CallGraph} {code : MethodId → Option Body} {before after : ProgramPoint → Env}
  {st st' : Stack} {m k : MethodId} {b b' : Body} {i : Nat} {p : Point} {σ τ : Store}
  {result : Option Var} {call : Call}

/-- The running frame stands at a point of the graph. Its variables are described by the environment
behind the point if that is the entry, and otherwise by the environment before it. -/
structure FrameDescribed (cg : CallGraph) (code : MethodId → Option Body)
    (before after : ProgramPoint → Env) (f : Frame) : Prop where
  mem : (⟨f.point, f.method⟩ : ProgramPoint) ∈ (Icfg.ofCallGraph cg code).nodes
  entry : f.point = .entry → (after ⟨f.point, f.method⟩).Describes f.store
  inside : f.point ≠ .entry → (before ⟨f.point, f.method⟩).Describes f.store

/-- The waiting frames stand at calls, each of a method that may call the one above it, and the
environments before the calls describe them. -/
inductive Waiting (cg : CallGraph) (code : MethodId → Option Body) (before : ProgramPoint → Env) :
    MethodId → List Frame → Prop where
  | nil {k : MethodId} : Waiting cg code before k []
  | cons {m k : MethodId} {b : Body} {i : Nat} {σ : Store} {rest : List Frame}
      {result : Option Var} {call : Call} :
      (Icfg.ofCallGraph cg code).cfg? m = some (.ofBody b) → code m = some b →
      b.stmts[i]? = some (.invoke result call) → k ∈ cg.callees ⟨i, m⟩ →
      (before ⟨.stmt i, m⟩).Describes σ → Waiting cg code before m rest →
      Waiting cg code before k (⟨m, .stmt i, σ⟩ :: rest)

/-- What every step of an execution keeps. -/
structure Described (cg : CallGraph) (code : MethodId → Option Body)
    (before after : ProgramPoint → Env) (st : Stack) : Prop where
  top : FrameDescribed cg code before after st.top
  /-- A returned value is that of a returned variable. -/
  returned {v : Word} : st.returned = some v → ∃ b y, code st.top.method = some b ∧
    y ∈ b.returnVars ∧ st.top.store y = some v
  waiting : Waiting cg code before st.top.method st.waiting

/-- What is assumed of the call graph, the bodies and the environments. -/
structure Analyzed (cg : CallGraph) (code : MethodId → Option Body)
    (before after : ProgramPoint → Env) : Prop where
  stable : Stable (.ofCallGraph cg code) before after
  typed : IntTyped code cg.callees
  linked {m : MethodId} {b : Body} : code m = some b → b.Linked
  plain {m : MethodId} {b : Body} : code m = some b → ∀ s ∈ b.stmts, s.isPlain = true
  /-- Callees are reachable. -/
  reachable {s : CallSite} {k : MethodId} : k ∈ cg.callees s → k ∈ cg.reachable

/-! ## Points -/

section

variable (h : Analyzed cg code before after)

include h

/-- What is described before a point at which nothing is assigned is described behind it. -/
theorem describes_after_of_none (hm : (Icfg.ofCallGraph cg code).cfg? m = some (.ofBody b))
    (hv : (⟨p, m⟩ : ProgramPoint) ∈ visited (.ofCallGraph cg code))
    (hnone : ∀ s, b.at? p = some s → s.call?.isSome ∨ s.definition = none)
    (hσ : (before ⟨p, m⟩).Describes σ) : (after ⟨p, m⟩).Describes σ := by
  refine (h.stable.settled hv).describes_of_none ?_ hσ
  rw [plainAt_eq hm]
  cases hs : b.at? p with
  | none => rfl
  | some s =>
      rcases hnone s hs with hcall | hd
      · have hnot : s.call?.isNone = false := by simpa using hcall
        rw [Option.filter_some, hnot]
        rfl
      · cases hcall : s.call?.isNone with
        | false => rw [Option.filter_some, hcall]; rfl
        | true =>
            rw [Option.filter_some, hcall]
            exact Constants.assigned_of_definition_none _ hd

/-- A call passes the environment before it on to its edges. -/
theorem describes_after_call (hm : (Icfg.ofCallGraph cg code).cfg? m = some (.ofBody b))
    (hs : b.stmts[i]? = some (.invoke result call)) (hσ : (before ⟨.stmt i, m⟩).Describes σ) :
    (after ⟨.stmt i, m⟩).Describes σ := by
  have hn : (⟨.stmt i, m⟩ : ProgramPoint) ∈ (Icfg.ofCallGraph cg code).nodes :=
    Icfg.mem_nodes.mpr ⟨_, hm, Body.stmt_mem_points hs⟩
  refine describes_after_of_none h hm (mem_visited_of_ne_entry hn (by simp)) ?_ hσ
  intro s hs'
  have heq : s = .invoke result call := Option.some.inj (hs'.symm.trans hs)
  rw [heq]
  exact Or.inl rfl

/-! ## Steps -/

/-- Within a body a frame arrives with the variables that are described behind the point it left. -/
theorem frameDescribed_of_mem_succs {q : Point}
    (hm : (Icfg.ofCallGraph cg code).cfg? m = some (.ofBody b)) (hb : code m = some b)
    (hcall : (b.at? p).bind Stmt.call? = none) (hq : q ∈ (Cfg.ofBody b).succs p)
    (hσ : (after ⟨p, m⟩).Describes σ) : FrameDescribed cg code before after ⟨m, q, σ⟩ := by
  obtain ⟨hmem, hne⟩ := Cfg.Linked.mem_succs (h.linked hb) hq
  have hnode : (⟨q, m⟩ : ProgramPoint) ∈ (Icfg.ofCallGraph cg code).nodes :=
    Icfg.mem_nodes.mpr ⟨_, hm, hmem⟩
  have hflows := h.stable.flows (Icfg.normal_mem_edges hm hcall hq) hnode
  exact ⟨hnode, fun heq => absurd heq hne, fun _ => hσ.mono hflows⟩

/-- Where no statement is a call, the transfers are those of a single body. -/
theorem describes_after_flow {w : World} {t t' : Trace} {c : Config}
    (hf : FrameDescribed cg code before after ⟨m, p, σ⟩) (hb : code m = some b) (hp : p ≠ .exit)
    (hcall : ∀ s, b.at? p = some s → s.call? = none) (hstep : b.step w ⟨p, σ⟩ t = .done c t') :
    (after ⟨p, m⟩).Describes c.store := by
  unfold Body.step at hstep
  split at hstep
  · rename_i hentry
    cases hstep
    exact hf.entry hentry
  · rename_i hexit
    exact absurd hexit hp
  · rename_i i hi
    change p = .stmt i at hi
    subst hi
    split at hstep
    · rename_i s hs
      have hsettled := h.stable.settled (mem_visited_of_ne_entry hf.mem (by simp))
      have hplain : plainAt (.ofCallGraph cg code) ⟨.stmt i, m⟩ = some s := by
        rw [plainAt_eq (cfg?_of_mem_nodes hf.mem hb).1]
        change (b.stmts[i]?).filter _ = _
        rw [hs, Option.filter_some, hcall s hs]
        rfl
      rw [hplain] at hsettled
      exact hsettled.describes_of_run (h.typed.bodies hb) (List.mem_of_getElem? hs)
        (hf.inside (by simp)) hstep
    · exact absurd hstep (by simp)

/-- Within a body everything is as it is without calls. -/
theorem described_flow {rest : List Frame} {w : World} {t t' : Trace} {c : Config}
    (hst : Described cg code before after ⟨⟨m, p, σ⟩, none, rest⟩) (hb : code m = some b)
    (hp : p ≠ .exit) (hlocal : ∀ s, b.at? p = some s → s.leavesFrame = false)
    (hstep : b.step w ⟨p, σ⟩ t = .done c t') :
    Described cg code before after ⟨⟨m, c.point, c.store⟩, none, rest⟩ := by
  obtain ⟨hm, _⟩ := cfg?_of_mem_nodes hst.top.mem hb
  have hq : c.point ∈ (Cfg.ofBody b).succs p := by
    rcases Body.step_along hstep with ⟨hexit, _⟩ | ⟨_, hq⟩
    · exact absurd hexit hp
    · exact hq
  have hcall : ∀ s, b.at? p = some s → s.call? = none := by
    intro s hs
    have hleaves := hlocal s hs
    cases s with
    | invoke result call => exact absurd hleaves (by simp [Stmt.leavesFrame])
    | _ => rfl
  have hnormal : (b.at? p).bind Stmt.call? = none := by
    cases hs : b.at? p with
    | none => rfl
    | some s => exact hcall s hs
  have hafter := describes_after_flow h hst.top hb hp hcall hstep
  refine ⟨frameDescribed_of_mem_succs h hm hb hnormal hq hafter, ?_, hst.waiting⟩
  intro v hv
  exact absurd hv (by simp)

/-- What enters a callee describes its fresh frame. -/
theorem described_call {rest : List Frame}
    (hst : Described cg code before after ⟨⟨m, .stmt i, σ⟩, none, rest⟩) (hb : code m = some b)
    (hs : b.stmts[i]? = some (.invoke result call)) (hk : k ∈ cg.callees ⟨i, m⟩)
    (hb' : code k = some b') :
    Described cg code before after
      ⟨⟨k, .entry, σ.passed b'.params call.args⟩, none, ⟨m, .stmt i, σ⟩ :: rest⟩ := by
  obtain ⟨hm, _⟩ := cfg?_of_mem_nodes hst.top.mem hb
  have hkc := Icfg.cfg?_ofBody (h.reachable hk) hb'
  have hnode : (⟨.entry, k⟩ : ProgramPoint) ∈ (Icfg.ofCallGraph cg code).nodes :=
    Icfg.mem_nodes.mpr ⟨_, hkc, b'.entry_mem_points⟩
  have hσ := hst.top.inside (by simp)
  have hedge := Icfg.call_mem_edges hm hs hk hkc
  have hflows := h.stable.flows hedge hnode
  rw [alongEdge_call hm hs hkc] at hflows
  have hpassed := describes_passArguments (describes_after_call h hm hs hσ)
    (h.typed.arguments hb hs hk hb')
  have hentry := describes_after_of_none h hkc (mem_visited_of_edge hedge hnode)
    (fun s hs' => absurd hs' (by simp [Body.at?])) (hpassed.mono hflows)
  refine ⟨⟨hnode, fun _ => hentry, fun hne => absurd rfl hne⟩, ?_, ?_⟩
  · intro v hv
    exact absurd hv (by simp)
  · exact .cons hm hb hs hk hσ hst.waiting

/-- A returned value is held by a variable that is returned. -/
theorem described_ret {rest : List Frame} {value : Option Expr}
    (hst : Described cg code before after ⟨⟨m, .stmt i, σ⟩, none, rest⟩) (hb : code m = some b)
    (hs : b.stmts[i]? = some (.ret value)) :
    Described cg code before after ⟨⟨m, .exit, σ⟩, value.bind σ.value, rest⟩ := by
  obtain ⟨hm, _⟩ := cfg?_of_mem_nodes hst.top.mem hb
  have hat : b.at? (.stmt i) = some (.ret value) := hs
  have hafter : (after ⟨.stmt i, m⟩).Describes σ := by
    refine describes_after_of_none h hm (mem_visited_of_ne_entry hst.top.mem (by simp)) ?_
      (hst.top.inside (by simp))
    intro s hs'
    have heq : s = .ret value := Option.some.inj (hs'.symm.trans hat)
    rw [heq]
    exact Or.inr rfl
  have hsucc : Point.exit ∈ (Cfg.ofBody b).succs (.stmt i) :=
    Cfg.mem_succs_stmt.mpr ⟨_, hs, _, List.mem_singleton.mpr rfl, rfl⟩
  have hnormal : (b.at? (.stmt i)).bind Stmt.call? = none := by
    rw [hat]
    rfl
  refine ⟨frameDescribed_of_mem_succs h hm hb hnormal hsucc hafter, ?_, hst.waiting⟩
  intro v hv
  obtain ⟨e, rfl, hv⟩ := Option.bind_eq_some_iff.mp hv
  have hplain := h.plain hb _ (List.mem_of_getElem? hs)
  cases e with
  | var y => exact ⟨b, y, hb, (Body.returnVars_ok b).2 y |>.mpr (List.mem_of_getElem? hs), hv⟩
  | _ => exact absurd hplain (by simp [Stmt.isPlain])

/-- **Behind a call the waiting frame is described.** The result comes from the exit of the callee,
the other variables from the call. -/
theorem described_leave {rest : List Frame} {v : Option Word}
    (hst : Described cg code before after ⟨⟨k, .exit, τ⟩, v, ⟨m, .stmt i, σ⟩ :: rest⟩)
    (hb : code m = some b) (hs : b.stmts[i]? = some (.invoke result call)) :
    Described cg code before after ⟨⟨m, b.following i, σ.receive result v⟩, none, rest⟩ := by
  obtain ⟨hm, hk, hσ, hrest⟩ : (Icfg.ofCallGraph cg code).cfg? m = some (.ofBody b) ∧
      k ∈ cg.callees ⟨i, m⟩ ∧ (before ⟨.stmt i, m⟩).Describes σ ∧
        Waiting cg code before m rest := by
    cases hst.waiting with
    | cons hm hb₁ hs₁ hk hσ hrest =>
        rw [hb] at hb₁
        cases hb₁
        exact ⟨hm, hk, hσ, hrest⟩
  obtain ⟨c', hc', _⟩ := Icfg.mem_nodes.mp hst.top.mem
  obtain ⟨_, b', hb', rfl⟩ := Icfg.cfg?_eq_some.mp hc'
  have hsucc := Icfg.following_mem_succs hs
  obtain ⟨hmem, hne⟩ := Cfg.Linked.mem_succs (h.linked hb) hsucc
  have hnode : (⟨b.following i, m⟩ : ProgramPoint) ∈ (Icfg.ofCallGraph cg code).nodes :=
    Icfg.mem_nodes.mpr ⟨_, hm, hmem⟩
  have hcall := describes_after_call h hm hs hσ
  have hexit : (after ⟨.exit, k⟩).Describes τ :=
    describes_after_of_none h hc' (mem_visited_of_ne_entry hst.top.mem (by simp))
      (fun s hs' => absurd hs' (by simp [Body.at?])) (hst.top.inside (by simp))
  have hpast := h.stable.flows (Icfg.callToReturn_mem_edges hm hs) hnode
  refine ⟨⟨hnode, fun heq => absurd heq hne, fun _ => ?_⟩, fun hv => absurd hv (by simp), hrest⟩
  intro y u hy hu
  by_cases hres : result = some y
  · -- the variable for the result holds what a returned variable of the callee held
    subst hres
    obtain ⟨b'', z, hb'', hz, hzu⟩ := hst.returned ((Store.receive_self σ y v).symm.trans hu)
    rw [hb'] at hb''
    cases hb''
    have hadm := hexit z u (h.typed.results hb hs hk hb' hy z hz) hzu
    have hback := h.stable.flows (Icfg.ret_mem_edges hm hs hk hc') hnode y
    rw [get_alongEdge_ret hm hs, if_pos rfl] at hback
    exact hadm.mono ((get_le_returnedValue _ hz).trans hback)
  · have hσy : σ y = some u := (σ.receive_ne hres v).symm.trans hu
    have hle := hpast y
    rw [get_alongEdge_callToReturn hm hs, if_neg hres] at hle
    exact (hcall y u hy hσy).mono hle

/-- **Every step keeps all frames described.** -/
theorem described_step (hst : Described cg code before after st)
    (hstep : Step code cg.callees st st') : Described cg code before after st' := by
  cases hstep with
  | flow hb hp hlocal hrun => exact described_flow h hst hb hp hlocal hrun
  | call hb hs hk hb' => exact described_call h hst hb hs hk hb'
  | ret hb hs => exact described_ret h hst hb hs
  | leave hb hs => exact described_leave h hst hb hs

theorem described_start {entry : MethodId} (hentry : entry ∈ cg.entries)
    (hreachable : entry ∈ cg.reachable) (hb : code entry = some b) (args : Var → Word) :
    Described cg code before after (.start entry b args) := by
  have hm := Icfg.cfg?_ofBody hreachable hb
  have hmem : entry ∈ (Icfg.ofCallGraph cg code).entries :=
    List.mem_filter.mpr ⟨hentry, by rw [hm]; rfl⟩
  have hboundary := h.stable.start hmem hm
  refine ⟨⟨Icfg.mem_nodes.mpr ⟨_, hm, b.entry_mem_points⟩, fun _ => ?_, fun hne => absurd rfl hne⟩,
    ?_, .nil⟩
  · exact (Constants.describes_boundary b args).mono hboundary
  · intro v hv
    exact absurd hv (by simp [Stack.start])

/-- **An execution is described wherever it comes to.** -/
theorem described_of_reaches {entry : MethodId} (hentry : entry ∈ cg.entries)
    (hreachable : entry ∈ cg.reachable) (hst : Reaches code cg.callees entry st) :
    Described cg code before after st :=
  hst.invariant (fun _ args hb => described_start h hentry hreachable hb args)
    fun _ _ => described_step h

end

/-- **Constant propagation across methods is sound.** In every execution that starts in the entry
method, wherever the running frame comes to, every tracked variable of it that has been assigned is
`nac` or the constant that it holds. -/
theorem before_admits_of_reaches [Nesting] {p : Program} (hp : p.Parsed) {entry : MethodId}
    (htyped : IntTyped p.hierarchy.body? (p.hierarchy.callGraph entry).callees)
    {s : Solution ProgramPoint Env}
    (hs : Returns (.ofCallGraph (p.hierarchy.callGraph entry) p.hierarchy.body?) s) {st : Stack}
    (hst : Reaches p.hierarchy.body? (p.hierarchy.callGraph entry).callees entry st)
    (hpoint : st.top.point ≠ .entry) {x : Var} (hx : x.isIntLike = true) {v : Word}
    (hv : st.top.store x = some v) :
    ∃ env, s.before.get? ⟨st.top.point, st.top.method⟩ = some env ∧
      (env.get x = .nac ∨ env.get x = .const v.toInt) := by
  have hw := hp.classes_wellFormed
  have hlinked : ∀ m b, p.hierarchy.body? m = some b → b.Linked :=
    fun m b hb => (hp.wellFormed hb).1.linked
  obtain ⟨before, after, hstable, hbefore⟩ := stable_of_returns hlinked hs
  have hanalyzed : Analyzed (p.hierarchy.callGraph entry) p.hierarchy.body? before after := by
    refine ⟨hstable, htyped, fun hb => hlinked _ _ hb, fun hb => (hp.wellFormed hb).2, ?_⟩
    intro site k hk
    obtain ⟨e, he, _, rfl⟩ := CallGraph.mem_callees.mp hk
    exact (Hierarchy.ends_callGraph hw he).2
  have hdescribed := described_of_reaches hanalyzed (List.mem_singleton_self entry)
    (Hierarchy.entry_mem_callGraph hw) hst
  exact ⟨_, hbefore _ hdescribed.top.mem, hdescribed.top.inside hpoint x v hx hv⟩

/-! ## An example -/

section

open Recursion (program main callee)

theorem eq_of_body?_program {m : MethodId} {b : Body} (hb : program.hierarchy.body? m = some b) :
    b = main ∨ b = callee := by
  obtain ⟨x, hx, hb⟩ := Option.bind_eq_some_iff.mp hb
  have hmem := Hierarchy.mem_declaredMethods_of_method? hx
  have hmethods : program.hierarchy.declaredMethods.map (·.body) = [some main, some callee] := rfl
  have hbody : some b ∈ program.hierarchy.declaredMethods.map (·.body) :=
    List.mem_map.mpr ⟨x, hmem, hb⟩
  rw [hmethods] at hbody
  simpa using hbody

theorem isIntOperand_program {m : MethodId} {b : Body} {i : Nat} {result : Option Var} {c : Call}
    (hb : program.hierarchy.body? m = some b) (hs : b.stmts[i]? = some (.invoke result c)) :
    ∀ e ∈ c.args, e.isIntOperand = true := by
  have hmem := List.mem_of_getElem? hs
  rcases eq_of_body?_program hb with rfl | rfl
  · simp only [main, List.mem_cons, Stmt.invoke.injEq, reduceCtorEq, List.not_mem_nil,
      or_false] at hmem
    rw [hmem.2]
    decide
  · simp only [callee, List.mem_cons, Stmt.invoke.injEq, reduceCtorEq, List.not_mem_nil,
      or_false, false_or] at hmem
    rw [hmem.2]
    decide

theorem intTyped_program (callees : CallSite → List MethodId) :
    IntTyped program.hierarchy.body? callees where
  bodies hb := by
    rcases eq_of_body?_program hb with rfl | rfl
    · decide
    · decide
  arguments hb hs _ _ := fun x e he _ => isIntOperand_program hb hs e (List.of_mem_zip he).2
  results {m k b b' i x c} _ _ _ hb' _ := by
    rcases eq_of_body?_program hb' with rfl | rfl
    · decide
    · decide

/-- The method that may call itself is called with seven, and comes back with three. -/
theorem reaches_program : ∃ st, Reaches program.hierarchy.body?
    (program.hierarchy.callGraph main.method).callees main.method st ∧ st.top.point = .stmt 1 ∧
      st.top.method = main.method ∧ st.top.store (intVar 0 "s") = some 3 := by
  have hmain : program.hierarchy.body? main.method = some main := by decide +kernel
  have hcallee : program.hierarchy.body? callee.method = some callee := by decide +kernel
  have hstart : Step program.hierarchy.body? (program.hierarchy.callGraph main.method).callees
      (.start main.method main fun _ => 0)
      ⟨⟨main.method, .stmt 0, (main.start fun _ => 0).store⟩, none, []⟩ :=
    .flow (p := .entry) (w := fun _ => 0) (t := []) hmain (by decide) (by rintro s ⟨⟩) rfl
  have hcalled := (ReflTransGen.single hstart).tail (.call hmain rfl (by decide +kernel) hcallee)
  -- in the callee: the entry, the assignment, and the branch that is taken
  have hentered := hcalled.tail
    (.flow (w := fun _ => 0) (t := []) hcallee (by decide) (by rintro s ⟨⟩) rfl)
  have hassigned := hentered.tail
    (.flow (w := fun _ => 0) (t := []) hcallee (by decide) (by rintro s ⟨⟩; rfl) rfl)
  have hbranched := hassigned.tail
    (.flow (w := fun _ => 0) (t := []) hcallee (by decide) (by rintro s ⟨⟩; rfl) rfl)
  have hback := (hbranched.tail (.ret hcallee rfl)).tail (.leave hmain rfl)
  exact ⟨_, ⟨main, fun _ => 0, hmain, hback⟩, rfl, rfl, rfl⟩

/-- So behind the call the result is known to be three, if it is known to be a constant. -/
theorem before_admits_of_reaches_program :
    ∃ s env, Returns (.ofCallGraph (program.hierarchy.callGraph main.method)
        program.hierarchy.body?) s ∧ s.before.get? ⟨.stmt 1, main.method⟩ = some env ∧
      (env.get (intVar 0 "s") = .nac ∨ env.get (intVar 0 "s") = .const 3) := by
  obtain ⟨s, hs⟩ : ∃ s, solveWithin (.ofCallGraph (program.hierarchy.callGraph main.method)
      program.hierarchy.body?) 40 = some s :=
    Option.isSome_iff_exists.mp (by decide +kernel)
  obtain ⟨st, hst, hpoint, hmethod, hv⟩ := reaches_program
  obtain ⟨env, henv, hadm⟩ := before_admits_of_reaches Recursion.parsed_program
    (intTyped_program _) ⟨40, hs⟩ hst (by simp [hpoint]) (by decide) hv
  rw [hpoint, hmethod] at henv
  exact ⟨s, env, ⟨40, hs⟩, henv, hadm⟩

end

end InterConstants

end TacFlow
