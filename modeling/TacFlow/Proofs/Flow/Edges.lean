import Mathlib.Data.List.Count
import Mathlib.Data.List.Nodup
import Mathlib.Data.List.Perm.Basic
import TacFlow.Proofs.Program.Parsed

/-!
# How the edges of a body lie

The graph of a body keeps one list of edges, in the order in which they are made: the edge into the body,
then the ways out of each statement in turn. What leaves a node and what leads to it is picked out of this
list, so every edge is found once at its source and once at its target, and the edges out of a statement
are its own ways out in their own order.

Where control can go is known from two sides. A statement tells its targets and whether it can fall
through, and the graph has its edges. `IsLaidOut` says what the graph is like and that the two agree,
wherever the statement stands and whatever its targets are.

Two edges may be equal, because a switch may repeat a case. So what is compared are not the sets of edges
but the lists, up to their order.
-/

namespace TacFlow

open List (Perm)

/-! ## Lists taken apart -/

section

variable {α β κ : Type}

theorem pairwise_zipIdx (l : List α) : l.zipIdx.Pairwise fun x y => x.2 ≠ y.2 := by
  have hnodup : (l.zipIdx.map Prod.snd).Nodup := by
    rw [List.zipIdx_map_snd]
    exact List.nodup_range'
  exact List.pairwise_map.mp hnodup

/-- A list is made of what it has for each of some keys. -/
theorem flatMap_filter_perm [DecidableEq κ] {f : α → κ} {keys : List κ} {l : List α}
    (hn : keys.Nodup) (hkeys : ∀ x ∈ l, f x ∈ keys) :
    (keys.flatMap fun k => l.filter (f · = k)).Perm l := by
  induction keys generalizing l with
  | nil =>
      have hnil : l = [] := List.eq_nil_iff_forall_not_mem.mpr fun x hx => by simpa using hkeys x hx
      rw [hnil]
      simp
  | cons k keys ih =>
      rw [List.nodup_cons] at hn
      -- the other keys take theirs from what the first one leaves
      have hrest : (keys.flatMap fun k' => l.filter (f · = k')) =
          keys.flatMap fun k' => (l.filter fun x => !decide (f x = k)).filter (f · = k') := by
        refine List.flatMap_congr fun k' hk' => ?_
        rw [List.filter_filter]
        refine List.filter_congr fun x _ => ?_
        by_cases hx : f x = k'
        · have hne : f x ≠ k := fun hq => hn.1 (hq ▸ hx ▸ hk')
          simp [hx, hx ▸ hne]
        · simp [hx]
      have hmem : ∀ x ∈ l.filter fun x => !decide (f x = k), f x ∈ keys := by
        intro x hx
        obtain ⟨hxl, hne⟩ := List.mem_filter.mp hx
        exact (List.mem_cons.mp (hkeys x hxl)).resolve_left (by simpa using hne)
      rw [List.flatMap_cons, hrest]
      exact ((ih hn.2 hmem).append_left _).trans (List.filter_append_perm _ l)

/-- Where only one member contributes, its contribution is the whole. -/
theorem flatMap_eq_of_unique {f : α → List β} {l : List α} {a : α} (hn : l.Nodup) (ha : a ∈ l)
    (h : ∀ x ∈ l, x ≠ a → f x = []) : l.flatMap f = f a := by
  induction l with
  | nil => exact absurd ha (by simp)
  | cons x l ih =>
      rw [List.nodup_cons] at hn
      rw [List.flatMap_cons]
      rcases List.mem_cons.mp ha with rfl | hal
      · have hnone : l.flatMap f = [] := List.flatMap_eq_nil_iff.mpr fun y hy =>
          h y (List.mem_cons_of_mem _ hy) fun hq => hn.1 (hq ▸ hy)
        rw [hnone, List.append_nil]
      · have hx : f x = [] := h x List.mem_cons_self fun hq => hn.1 (hq ▸ hal)
        rw [hx, List.nil_append]
        exact ih hn.2 hal fun y hy => h y (List.mem_cons_of_mem _ hy)

/-- Contributions that tell whose they are have nothing in common. -/
theorem nodup_flatMap_of_key (key : β → Option κ) (tag : α → κ) {f : α → List β} {l : List α}
    (hl : l.Pairwise fun x y => tag x ≠ tag y) (hn : ∀ x ∈ l, (f x).Nodup)
    (hkey : ∀ x ∈ l, ∀ y ∈ f x, key y = some (tag x)) : (l.flatMap f).Nodup := by
  refine List.nodup_flatMap.mpr ⟨hn, hl.imp_of_mem ?_⟩
  intro x x' hx hx' hne y hy hy'
  exact hne (Option.some.inj ((hkey x hx y hy).symm.trans (hkey x' hx' y hy')))

end

/-- The points of a body, gone through: the entry, each statement, and the exit. -/
theorem Body.flatMap_points {β : Type} (b : Body) (f : Point → List β) :
    b.points.flatMap f =
      f .entry ++ (b.stmts.zipIdx.flatMap fun x => f (.stmt x.2)) ++ f .exit := by
  have hrange : List.range b.stmts.length = b.stmts.zipIdx.map Prod.snd := by
    rw [List.zipIdx_map_snd, List.range_eq_range']
  rw [points, hrange, List.flatMap_append, List.flatMap_cons, List.flatMap_map, List.flatMap_map,
    List.flatMap_cons, List.flatMap_nil, List.append_nil]

namespace Cfg

variable {b : Body} {i : Nat} {s : Stmt} {e : Edge} {x : Var} {cases : List (Int × Nat)}
  {default : Option Nat}

/-! ## The edges at each node -/

theorem source_of_mem_edgesFrom (he : e ∈ edgesFrom b i s) : e.source = .stmt i :=
  source_of_mem_exitsOf (mem_edgesFrom.mp he)

/-- The edges out of a statement are its own ways out, in their order. -/
theorem outEdges_stmt (hs : b.stmts[i]? = some s) :
    (ofBody b).outEdges (.stmt i) = edgesFrom b i s := by
  have hown : (edgesFrom b i s).filter (·.source = .stmt i) = edgesFrom b i s :=
    List.filter_eq_self.mpr fun e he => by simp [source_of_mem_edgesFrom he]
  have hentry : ¬ (entryEdge b).source = .stmt i := by simp [entryEdge]
  have hmem : (s, i) ∈ b.stmts.zipIdx := List.mk_mem_zipIdx_iff_getElem?.mpr hs
  -- the edge out of the entry and those of the other statements have other sources
  rw [outEdges, ofBody, List.filter_cons_of_neg (by simpa using hentry), List.filter_flatMap]
  have hnodup : b.stmts.zipIdx.Nodup :=
    (pairwise_zipIdx b.stmts).imp fun hne hq => hne (congrArg Prod.snd hq)
  refine (flatMap_eq_of_unique hnodup hmem ?_).trans hown
  rintro ⟨s', j⟩ hj hne
  refine List.filter_eq_nil_iff.mpr fun e he => ?_
  rw [source_of_mem_edgesFrom he, decide_eq_true_eq]
  intro hq
  obtain rfl : j = i := Point.stmt.inj hq
  rw [List.mk_mem_zipIdx_iff_getElem?, hs] at hj
  exact hne (by rw [Option.some.inj hj])

theorem outEdges_entry (b : Body) : (ofBody b).outEdges .entry = [entryEdge b] := by
  rw [outEdges, ofBody, List.filter_cons_of_pos (by simp [entryEdge])]
  -- no statement has an edge out of the entry
  refine congrArg (entryEdge b :: ·) (List.filter_eq_nil_iff.mpr fun e he => ?_)
  obtain ⟨⟨s, i⟩, _, he⟩ := List.mem_flatMap.mp he
  simp [source_of_mem_edgesFrom he]

theorem outEdges_exit (b : Body) : (ofBody b).outEdges .exit = [] := by
  refine List.filter_eq_nil_iff.mpr fun e he => ?_
  simpa using (source_mem he).2

/-- Gone through node by node, the edges stand in the order in which they were made. -/
theorem flatMap_outEdges (b : Body) :
    (ofBody b).nodes.flatMap (ofBody b).outEdges = (ofBody b).edges := by
  have hstmts : (b.stmts.zipIdx.flatMap fun x => (ofBody b).outEdges (.stmt x.2)) =
      b.stmts.zipIdx.flatMap fun x => edgesFrom b x.2 x.1 :=
    List.flatMap_congr fun x hx => outEdges_stmt (List.mk_mem_zipIdx_iff_getElem?.mp hx)
  change b.points.flatMap _ = entryEdge b :: _
  rw [Body.flatMap_points, hstmts, outEdges_entry, outEdges_exit, List.append_nil]
  rfl

/-- A call has one way out. -/
theorem succs_invoke {result : Option Var} {call : Call}
    (hs : b.stmts[i]? = some (.invoke result call)) :
    (ofBody b).succs (.stmt i) = [b.following i] := by
  rw [succs, outEdges_stmt hs]
  rfl

/-! ## Edges that are equal -/

/-- A switch has an edge for every case, and one for its default behind them. -/
theorem edgesFrom_switch : edgesFrom b i (.switch x cases default) =
    cases.map (fun c => ⟨.stmt i, .stmt c.2, .switchCase, some c.1⟩) ++
      default.toList.map fun t => ⟨.stmt i, .stmt t, .switchDefault, none⟩ := by
  rw [edgesFrom, exitsOf, List.filterMap_append, List.filterMap_map]
  congr 1
  · simp
  · cases default <;> rfl

/-- Only the edges of a switch can be equal. -/
theorem nodup_edgesFrom (hs : ∀ x cases default, s ≠ .switch x cases default) :
    (edgesFrom b i s).Nodup := by
  cases s with
  | branch cond target => cases target <;> simp [edgesFrom, exitsOf]
  | goto target => cases target <;> simp [edgesFrom, exitsOf]
  | switch x cases default => exact absurd rfl (hs x cases default)
  | _ => simp [edgesFrom, exitsOf]

theorem count_edgesFrom (he : e ∈ edgesFrom b i s) (hkind : e.kind ≠ .switchCase) :
    (edgesFrom b i s).count e = 1 := by
  by_cases hs : ∃ x cases default, s = .switch x cases default
  · obtain ⟨x, cases, default, rfl⟩ := hs
    have hcases : e ∉ cases.map fun c => (⟨.stmt i, .stmt c.2, .switchCase, some c.1⟩ : Edge) := by
      intro hmem
      obtain ⟨c, _, rfl⟩ := List.mem_map.mp hmem
      exact hkind rfl
    rw [edgesFrom_switch] at he ⊢
    have hdefault := (List.mem_append.mp he).resolve_left hcases
    rw [List.count_append, List.count_eq_zero_of_not_mem hcases, Nat.zero_add]
    refine List.count_eq_one_of_mem ?_ hdefault
    cases default <;> simp
  · exact List.count_eq_one_of_mem (nodup_edgesFrom (by simpa using hs)) he

/-- The edge of a case is there as often as the case is. -/
theorem count_edgesFrom_switch {n : Int} {t : Nat} :
    (edgesFrom b i (.switch x cases default)).count ⟨.stmt i, .stmt t, .switchCase, some n⟩ =
      cases.count (n, t) := by
  have hinj : Function.Injective fun c : Int × Nat =>
      (⟨.stmt i, .stmt c.2, .switchCase, some c.1⟩ : Edge) := by
    rintro ⟨n, t⟩ ⟨n', t'⟩ h
    simpa [and_comm] using h
  have hdefault : (⟨.stmt i, .stmt t, .switchCase, some n⟩ : Edge) ∉
      default.toList.map fun t => (⟨.stmt i, .stmt t, .switchDefault, none⟩ : Edge) := by
    simp
  rw [edgesFrom_switch, List.count_append, List.count_eq_zero_of_not_mem hdefault, Nat.add_zero]
  exact List.count_map_of_injective cases _ hinj (n, t)

/-- An edge is counted in the list of its source as in the list of all edges. -/
theorem count_outEdges (g : Cfg) (e : Edge) : (g.outEdges e.source).count e = g.edges.count e :=
  List.count_filter (by simp)

theorem count_inEdges (g : Cfg) (e : Edge) : (g.inEdges e.target).count e = g.edges.count e :=
  List.count_filter (by simp)

/-- No edge is made twice, except for a case that is repeated. -/
theorem count_edges (he : e ∈ (ofBody b).edges) (hkind : e.kind ≠ .switchCase) :
    (ofBody b).edges.count e = 1 := by
  rw [← count_outEdges]
  rcases mem_edges_ofBody.mp he with rfl | ⟨i, s, hs, he⟩
  · change List.count _ ((ofBody b).outEdges .entry) = 1
    rw [outEdges_entry]
    exact List.count_singleton_self
  · rw [source_of_mem_exitsOf he, outEdges_stmt hs]
    exact count_edgesFrom (mem_edgesFrom.mpr he) hkind

/-! ## Where control can go -/

/-- The places that a statement can pass control to, in order: the exit for a return, otherwise the
targets that it names and then what stands behind it, if it can go on there. -/
def onward (b : Body) (i : Nat) (s : Stmt) : List Point :=
  match s with
  | .ret _ => [.exit]
  | s => s.targets.map .stmt ++ if s.canFallThrough then [b.following i] else []

theorem succs_stmt (hs : b.stmts[i]? = some s) : (ofBody b).succs (.stmt i) = onward b i s := by
  rw [succs, outEdges_stmt hs]
  cases s with
  | branch cond target => cases target <;> rfl
  | goto target => cases target <;> rfl
  | switch x cases default =>
      rw [edgesFrom_switch]
      simp [onward, Stmt.targets, Stmt.canFallThrough, Function.comp_def]
  | _ => rfl

/-- An edge that goes on without a jump leads to what stands behind its statement. -/
theorem target_of_kind (he : e ∈ edgesFrom b i s) (hkind : e.kind = .fallThrough ∨ e.kind = .ifFalse) :
    e.target = b.following i := by
  rw [mem_edgesFrom] at he
  cases s with
  | branch cond target => cases target <;> simp [exitsOf] at he <;> grind
  | goto target => cases target <;> simp [exitsOf] at he; grind
  | switch x cases default => cases default <;> simp [exitsOf] at he <;> grind
  | _ => simp [exitsOf] at he; grind

theorem canFallThrough_iff : s.canFallThrough = true ↔
    ∃ e ∈ edgesFrom b i s, e.kind = .fallThrough ∨ e.kind = .ifFalse := by
  simp only [mem_edgesFrom]
  cases s with
  | branch cond target => simp [exitsOf, Stmt.canFallThrough]
  | goto target => cases target <;> simp [exitsOf, Stmt.canFallThrough]
  | switch x cases default => cases default <;> simp [exitsOf, Stmt.canFallThrough]
  | _ => simp [exitsOf, Stmt.canFallThrough]

/-- Where no target is missing, control can go somewhere from every statement. -/
theorem onward_ne_nil (hs : s.isLoose = false) : onward b i s ≠ [] := by
  cases s with
  | branch cond target => cases target <;> simp [onward, Stmt.targets, Stmt.canFallThrough]
  | goto target => cases target <;> simp_all [onward, Stmt.targets, Stmt.isLoose]
  | switch x cases default => cases default <;> simp_all [onward, Stmt.targets, Stmt.isLoose]
  | _ => simp [onward, Stmt.canFallThrough]

/-! ## The result -/

/-- The graph of a body, as its edges should lie. -/
structure IsLaidOut (b : Body) (g : Cfg) : Prop where
  /-- The nodes are different, and every edge joins two of them. -/
  nodup_nodes : g.nodes.Nodup
  ends {e : Edge} : e ∈ g.edges → e.source ∈ g.nodes ∧ e.target ∈ g.nodes
  /-- Every edge is listed once where it begins, and nowhere else. -/
  mem_outEdges {p : Point} {e : Edge} : e ∈ g.outEdges p ↔ e ∈ g.edges ∧ e.source = p
  outEdges : g.nodes.flatMap g.outEdges = g.edges
  /-- It is listed once where it ends, and nowhere else. -/
  mem_inEdges {p : Point} {e : Edge} : e ∈ g.inEdges p ↔ e ∈ g.edges ∧ e.target = p
  inEdges : (g.nodes.flatMap g.inEdges).Perm g.edges
  /-- No other edge is equal to it, unless it belongs to a case. -/
  count_eq_one {e : Edge} : e ∈ g.edges → e.kind ≠ .switchCase →
    (g.outEdges e.source).count e = 1 ∧ (g.inEdges e.target).count e = 1
  /-- Each mention of a case has its own edge. -/
  count_case {i t : Nat} {x : Var} {cases : List (Int × Nat)} {default : Option Nat} {n : Int} :
    b.stmts[i]? = some (.switch x cases default) →
      (g.outEdges (.stmt i)).count ⟨.stmt i, .stmt t, .switchCase, some n⟩ = cases.count (n, t) ∧
        (g.inEdges (.stmt t)).count ⟨.stmt i, .stmt t, .switchCase, some n⟩ = cases.count (n, t)
  /-- One edge leaves the entry, for the first statement or, if there is none, for the exit. -/
  outEdges_entry : g.outEdges .entry = [⟨.entry, b.first, .entry, none⟩]
  inEdges_entry : g.inEdges .entry = []
  /-- The exit is the only node that nothing leaves. -/
  outEdges_eq_nil {p : Point} : p ∈ g.nodes → (g.outEdges p = [] ↔ p = .exit)
  /-- The edges out of a statement lead to where control can go, in this order. -/
  succs {i : Nat} {s : Stmt} : b.stmts[i]? = some s → g.succs (.stmt i) = onward b i s
  /-- It can fall through exactly if one of its edges goes on without a jump, -/
  canFallThrough {i : Nat} {s : Stmt} : b.stmts[i]? = some s → (s.canFallThrough = true ↔
    ∃ e ∈ g.outEdges (.stmt i), e.kind = .fallThrough ∨ e.kind = .ifFalse)
  /-- and such an edge leads to the next statement, or to the exit if there is none. -/
  following {i : Nat} {e : Edge} : e ∈ g.outEdges (.stmt i) →
    e.kind = .fallThrough ∨ e.kind = .ifFalse →
      e.target = if i + 1 < b.stmts.length then .stmt (i + 1) else .exit

theorem isLaidOut_of_linked (hb : b.Linked) : IsLaidOut b (ofBody b) where
  nodup_nodes := b.nodup_points
  ends he := ⟨(source_mem he).1, (Linked.target_mem hb he).1⟩
  mem_outEdges := by simp [Cfg.outEdges]
  outEdges := flatMap_outEdges b
  mem_inEdges := by simp [Cfg.inEdges]
  inEdges := flatMap_filter_perm b.nodup_points fun _ he => (Linked.target_mem hb he).1
  count_eq_one he hkind := by
    rw [count_outEdges, count_inEdges]
    exact ⟨count_edges he hkind, count_edges he hkind⟩
  count_case {i t _ _ _ n} hs := by
    -- both lists have what the list of all edges has
    have hsource := count_outEdges (ofBody b) ⟨.stmt i, .stmt t, .switchCase, some n⟩
    have htarget := count_inEdges (ofBody b) ⟨.stmt i, .stmt t, .switchCase, some n⟩
    have hcount := hsource
    rw [outEdges_stmt hs, count_edgesFrom_switch] at hcount
    exact ⟨hsource.trans hcount.symm, htarget.trans hcount.symm⟩
  outEdges_entry := Cfg.outEdges_entry b
  inEdges_entry := by
    refine List.filter_eq_nil_iff.mpr fun e he => ?_
    simpa using (Linked.target_mem hb he).2
  outEdges_eq_nil {p} hp := by
    constructor
    · intro hnone
      rcases Body.mem_points.mp hp with rfl | ⟨i, hi, rfl⟩ | rfl
      · rw [Cfg.outEdges_entry] at hnone
        exact absurd hnone (by simp)
      · have hs : b.stmts[i]? = some b.stmts[i] := List.getElem?_eq_getElem hi
        have hsuccs := succs_stmt hs
        rw [Cfg.succs, hnone] at hsuccs
        exact absurd hsuccs.symm (onward_ne_nil (hb.tight (List.getElem_mem hi)))
      · rfl
    · rintro rfl
      exact outEdges_exit b
  succs := succs_stmt
  canFallThrough hs := by
    rw [outEdges_stmt hs]
    exact canFallThrough_iff
  following he hkind := by
    obtain ⟨s, hs, he⟩ := mem_outEdges_stmt.mp he
    exact target_of_kind (mem_edgesFrom.mpr he) hkind

/-- **The graph of a body is laid out as its statements say**, for every body that was read from a
text. -/
theorem isLaidOut_ofBody [Nesting] (hb : b.Parsed) : IsLaidOut b (ofBody b) :=
  isLaidOut_of_linked hb.wellFormed.linked

/-- A method that mentions a case twice, has cases and a default with one target, jumps to where it
stands and to the next statement, and ends without a return. -/
def crossroads : Body where
  method := ⟨⟨"M", 0⟩, ⟨.primitive .void, "f", [.primitive .int]⟩⟩
  params := [intVar 0 "a"]
  vars := [intVar 0 "a"]
  stmts := [
    .switch (intVar 0 "a") [(1, 1), (1, 1), (2, 0)] (some 1),
    .branch (.binary .eq (.var (intVar 0 "a")) (.lit 2)) (some 2),
    .branch (.binary .eq (.var (intVar 0 "a")) (.lit 3)) (some 2),
    .nop]
  lines := [1, 1, 1, 1]

set_option maxRecDepth 100000 in
theorem parsed_crossroads : crossroads.Parsed :=
  Body.parsed_of_mem
    ("class M\x7bstatic void f(int a)\x7bL:switch(a)\x7bcase 1:goto N;case 1:goto N;case 2:goto L;" ++
      "default:goto N;\x7dN:if(a==2)goto K;K:if(a==3)goto K;nop;\x7d\x7d")
    (toList_append_of_eq String.toList_ofList String.toList_ofList) (by decide +kernel)

theorem isLaidOut_ofBody_crossroads : IsLaidOut crossroads (ofBody crossroads) :=
  isLaidOut_ofBody parsed_crossroads

example : (ofBody crossroads).preds (.stmt 1) = [.stmt 0, .stmt 0, .stmt 0] := rfl

end Cfg

end TacFlow
