import TacFlow.Proofs.Calls.Dispatch
import TacFlow.Proofs.Flow.Edges

/-!
# The methods that can be called

Class hierarchy analysis starts a search at the entry method and goes from every method to the
targets of its calls. Nothing bounds how the methods call each other, so the search meets methods
again and again; it ends because each is expanded once, and only the declared methods have calls.

What it finds is the smallest set of methods that contains the entry and is closed under calls, and
the edges of the call graph are exactly the calls within that set. Whether a deeply nested type keeps
the analysis from naming a method is a different matter, and no part of this.
-/

namespace TacFlow

open Relation (ReflTransGen)

/-- A call stands at a call site. -/
def Hierarchy.CallAt (h : Hierarchy) (s : CallSite) (c : Call) : Prop :=
  ∃ b result, h.body? s.method = some b ∧ b.stmts[s.index]? = some (.invoke result c)

/-- A set of methods contains every target of every call in the bodies of its methods. -/
def Hierarchy.ClosedUnderCalls (h : Hierarchy) (P : MethodId → Prop) : Prop :=
  ∀ s c, P s.method → h.CallAt s c → ∀ t ∈ h.callTargets c.kind c.target, P t

/-- The smallest call graph that contains an entry method and is closed under calls. -/
structure Hierarchy.IsLeastCallGraph (h : Hierarchy) (entry : MethodId) (g : CallGraph) : Prop where
  entries : g.entries = [entry]
  /-- The entry is reachable. -/
  entry_mem : entry ∈ g.reachable
  /-- So is what a reachable method can call. -/
  closed : h.ClosedUnderCalls (· ∈ g.reachable)
  /-- No smaller set of methods is like that. -/
  least {P : MethodId → Prop} : P entry → h.ClosedUnderCalls P → ∀ m ∈ g.reachable, P m
  /-- The edges are the calls in reachable methods, with each of their targets. -/
  mem_edges {e : CallEdge} : e ∈ g.edges ↔ e.site.method ∈ g.reachable ∧
    ∃ c, h.CallAt e.site c ∧ c.kind = e.kind ∧ e.callee ∈ h.callTargets c.kind c.target
  /-- No method is listed twice, and no edge. -/
  nodup_reachable : g.reachable.Nodup
  nodup_edges : g.edges.Nodup
  /-- Both ends of an edge are reachable. -/
  ends {e : CallEdge} : e ∈ g.edges → e.site.method ∈ g.reachable ∧ e.callee ∈ g.reachable
  /-- Only the entry is reachable without being called. -/
  called {m : MethodId} : m ∈ g.reachable → m ≠ entry → ∃ e ∈ g.edges, e.callee = m
  /-- The graph can be drawn. -/
  drawable (title : String) : (g.dot? title).isSome = true

/-- What is asked about single call sites and methods is answered from the edges. -/
structure CallGraph.Indexed (g : CallGraph) : Prop where
  mem_edgesOutOf {s : CallSite} {e : CallEdge} : e ∈ g.edgesOutOf s ↔ e ∈ g.edges ∧ e.site = s
  mem_edgesInto {m : MethodId} {e : CallEdge} : e ∈ g.edgesInto m ↔ e ∈ g.edges ∧ e.callee = m
  mem_callees {s : CallSite} {m : MethodId} :
    m ∈ g.callees s ↔ ∃ e ∈ g.edges, e.site = s ∧ e.callee = m
  mem_callers {s : CallSite} {m : MethodId} :
    s ∈ g.callers m ↔ ∃ e ∈ g.edges, e.callee = m ∧ e.site = s
  /-- Nothing is answered twice. -/
  nodup_edgesOutOf (s : CallSite) : (g.edgesOutOf s).Nodup
  nodup_edgesInto (m : MethodId) : (g.edgesInto m).Nodup
  nodup_callees (s : CallSite) : (g.callees s).Nodup
  nodup_callers (m : MethodId) : (g.callers m).Nodup

/-! ## Answers from the edges -/

namespace CallGraph

variable {g : CallGraph} {s : CallSite} {m : MethodId} {e : CallEdge}

theorem mem_edgesOutOf : e ∈ g.edgesOutOf s ↔ e ∈ g.edges ∧ e.site = s := by
  simp [edgesOutOf]

theorem mem_edgesInto : e ∈ g.edgesInto m ↔ e ∈ g.edges ∧ e.callee = m := by
  simp [edgesInto]

theorem mem_callees : m ∈ g.callees s ↔ ∃ e ∈ g.edges, e.site = s ∧ e.callee = m := by
  simp only [callees, List.mem_eraseDups, List.mem_map, mem_edgesOutOf, and_assoc]

theorem mem_callers : s ∈ g.callers m ↔ ∃ e ∈ g.edges, e.callee = m ∧ e.site = s := by
  simp only [callers, List.mem_eraseDups, List.mem_map, mem_edgesInto, and_assoc]

theorem indexed_of_nodup (hg : g.edges.Nodup) : g.Indexed where
  mem_edgesOutOf := mem_edgesOutOf
  mem_edgesInto := mem_edgesInto
  mem_callees := mem_callees
  mem_callers := mem_callers
  nodup_edgesOutOf _ := hg.filter _
  nodup_edgesInto _ := hg.filter _
  nodup_callees _ := Hierarchy.nodup_eraseDups _
  nodup_callers _ := Hierarchy.nodup_eraseDups _

/-! ## Drawing -/

theorem isSome_nodeName? (hm : m ∈ g.reachable) : (g.nodeName? m).isSome = true := by
  rw [nodeName?, Option.isSome_map, List.isSome_idxOf?]
  exact hm

theorem isSome_dotEdge? (hcaller : e.site.method ∈ g.reachable) (hcallee : e.callee ∈ g.reachable) :
    (g.dotEdge? e).isSome = true := by
  obtain ⟨caller, hq⟩ := Option.isSome_iff_exists.mp (isSome_nodeName? hcaller)
  obtain ⟨callee, hq'⟩ := Option.isSome_iff_exists.mp (isSome_nodeName? hcallee)
  simp [dotEdge?, hq, hq']

/-- A graph can be drawn if its edges can. -/
theorem isSome_dot? (hg : ∀ e ∈ g.edges, (g.dotEdge? e).isSome = true) (title : String) :
    (g.dot? title).isSome = true := by
  have key : ∀ es : List CallEdge, (∀ e ∈ es, (g.dotEdge? e).isSome = true) →
      ∃ lines, es.mapM g.dotEdge? = some lines := by
    intro es
    induction es with
    | nil => exact fun _ => ⟨[], rfl⟩
    | cons e es ih =>
        intro hes
        obtain ⟨line, hline⟩ := Option.isSome_iff_exists.mp (hes e (by simp))
        obtain ⟨lines, hlines⟩ := ih fun d hd => hes d (List.mem_cons_of_mem e hd)
        exact ⟨line :: lines, by simp [List.mapM_cons, hline, hlines]⟩
  obtain ⟨lines, hlines⟩ := key g.edges hg
  simp [dot?, hlines]

end CallGraph

/-! ## Call sites -/

theorem Body.mem_calls {b : Body} {i : Nat} {c : Call} :
    (i, c) ∈ b.calls ↔ ∃ result, b.stmts[i]? = some (.invoke result c) := by
  simp only [calls, List.mem_filterMap, Prod.exists, List.mk_mem_zipIdx_iff_getElem?,
    Option.map_eq_some_iff, Prod.mk.injEq]
  constructor
  · rintro ⟨s, j, hs, c', hc, rfl, rfl⟩
    cases s with
    | invoke result call => cases hc; exact ⟨result, hs⟩
    | _ => exact absurd hc (by simp [Stmt.call?])
  · rintro ⟨result, hs⟩
    exact ⟨_, i, hs, c, rfl, rfl, rfl⟩

/-- The calls of a body have different positions. -/
theorem Body.pairwise_calls (b : Body) : b.calls.Pairwise fun x y => x.1 ≠ y.1 := by
  refine List.pairwise_filterMap.mpr ((pairwise_zipIdx b.stmts).imp ?_)
  intro x y hne u hu v hv
  obtain ⟨c, _, rfl⟩ := Option.map_eq_some_iff.mp hu
  obtain ⟨d, _, rfl⟩ := Option.map_eq_some_iff.mp hv
  exact hne

namespace Hierarchy

variable {h : Hierarchy} {entry m t : MethodId} {e : CallEdge}

theorem mem_callEdges : e ∈ h.callEdges m ↔ e.site.method = m ∧
    ∃ c, h.CallAt e.site c ∧ c.kind = e.kind ∧ e.callee ∈ h.callTargets c.kind c.target := by
  unfold callEdges
  constructor
  · intro he
    split at he
    · exact absurd he (by simp)
    · rename_i b hb
      obtain ⟨⟨i, c⟩, hc, he⟩ := List.mem_flatMap.mp he
      obtain ⟨t, ht, rfl⟩ := List.mem_map.mp he
      obtain ⟨result, hs⟩ := Body.mem_calls.mp hc
      exact ⟨rfl, c, ⟨b, result, hb, hs⟩, rfl, ht⟩
  · rintro ⟨rfl, c, ⟨b, result, hb, hs⟩, hkind, ht⟩
    rw [hb]
    refine List.mem_flatMap.mpr ⟨(e.site.index, c), Body.mem_calls.mpr ⟨result, hs⟩, ?_⟩
    refine List.mem_map.mpr ⟨e.callee, ht, ?_⟩
    rw [hkind]

theorem mem_calledBy : t ∈ h.calledBy m ↔
    ∃ s c, s.method = m ∧ h.CallAt s c ∧ t ∈ h.callTargets c.kind c.target := by
  unfold calledBy
  rw [List.mem_map]
  constructor
  · rintro ⟨e, he, rfl⟩
    obtain ⟨hm, c, hc, _, ht⟩ := mem_callEdges.mp he
    exact ⟨e.site, c, hm, hc, ht⟩
  · rintro ⟨s, c, hm, hc, ht⟩
    exact ⟨⟨c.kind, s, t⟩, mem_callEdges.mpr ⟨hm, c, hc, rfl, ht⟩, rfl⟩

/-- No edge out of a method is listed twice: its call sites have different positions, and no target
of a call is listed twice. -/
theorem nodup_callEdges (m : MethodId) : (h.callEdges m).Nodup := by
  unfold callEdges
  split
  · exact List.nodup_nil
  · rename_i b _
    rw [List.nodup_flatMap]
    constructor
    · rintro ⟨i, c⟩ _
      refine (nodup_callTargets c.kind c.target).map ?_
      intro t t' ht
      exact congrArg CallEdge.callee ht
    · refine b.pairwise_calls.imp ?_
      rintro ⟨i, c⟩ ⟨j, d⟩ hne e he he'
      obtain ⟨t, _, rfl⟩ := List.mem_map.mp he
      obtain ⟨t', _, hq⟩ := List.mem_map.mp he'
      have hsite : (⟨j, m⟩ : CallSite) = ⟨i, m⟩ := congrArg CallEdge.site hq
      exact hne (congrArg CallSite.index hsite).symm

/-! ## The search -/

/-- Only the declared methods can call anything. -/
theorem mem_of_calledBy (hw : h.WellFormed) (ht : t ∈ h.calledBy m) :
    m ∈ h.declaredMethods.map (·.id) := by
  obtain ⟨s, c, rfl, ⟨b, _, hb, _⟩, _⟩ := mem_calledBy.mp ht
  obtain ⟨x, hx, _⟩ := Option.bind_eq_some_iff.mp hb
  obtain ⟨hmem, hid⟩ := hw.method?_eq_some.mp hx
  exact List.mem_map.mpr ⟨x, hmem, hid⟩

theorem finds_callGraph (hw : h.WellFormed) :
    Search.Finds h.calledBy [entry] [] (h.callGraph entry).reachable := by
  refine Search.finds_reach ?_
  intro _ _ m _ hm
  obtain ⟨t, ht⟩ := List.exists_mem_of_ne_nil _ hm
  exact mem_of_calledBy hw ht

theorem closed_callGraph (hw : h.WellFormed) :
    h.ClosedUnderCalls (· ∈ (h.callGraph entry).reachable) := by
  intro s c hs hc t ht
  have hfollows : t ∈ h.calledBy s.method := mem_calledBy.mpr ⟨s, c, rfl, hc, ht⟩
  exact (finds_callGraph hw).closed (fun x hx => absurd hx (by simp)) s.method hs t hfollows

theorem entry_mem_callGraph (hw : h.WellFormed) : entry ∈ (h.callGraph entry).reachable :=
  (finds_callGraph hw).mem_found (Or.inr (by simp))

/-- What is reachable is the entry, or was called by a method that is reachable. -/
theorem reachable_induction (hw : h.WellFormed) {P : MethodId → Prop} (hentry : P entry)
    (hcall : ∀ s c, s.method ∈ (h.callGraph entry).reachable → P s.method → h.CallAt s c →
      ∀ t ∈ h.callTargets c.kind c.target, P t) :
    ∀ m ∈ (h.callGraph entry).reachable, P m := by
  have hfinds : Search.Finds h.calledBy [entry] [] (h.callGraph entry).reachable :=
    finds_callGraph hw
  intro m hm
  obtain ⟨z, hz, hzm⟩ := hfinds.mem_iff.mp hm
  rw [List.mem_singleton.mp hz] at hzm
  induction hzm with
  | refl => exact hentry
  | tail hreach hfollows ih =>
      obtain ⟨s, c, rfl, hc, ht⟩ := mem_calledBy.mp hfollows
      have hs := hfinds.mem_iff.mpr ⟨entry, by simp, hreach⟩
      exact hcall s c hs (ih hs) hc _ ht

theorem mem_edges_callGraph : e ∈ (h.callGraph entry).edges ↔
    e.site.method ∈ (h.callGraph entry).reachable ∧
      ∃ c, h.CallAt e.site c ∧ c.kind = e.kind ∧ e.callee ∈ h.callTargets c.kind c.target := by
  change e ∈ (h.callGraph entry).reachable.flatMap h.callEdges ↔ _
  rw [List.mem_flatMap]
  constructor
  · rintro ⟨m, hm, he⟩
    obtain ⟨rfl, hcall⟩ := mem_callEdges.mp he
    exact ⟨hm, hcall⟩
  · rintro ⟨hm, hcall⟩
    exact ⟨e.site.method, hm, mem_callEdges.mpr ⟨rfl, hcall⟩⟩

theorem ends_callGraph (hw : h.WellFormed) (he : e ∈ (h.callGraph entry).edges) :
    e.site.method ∈ (h.callGraph entry).reachable ∧
      e.callee ∈ (h.callGraph entry).reachable := by
  obtain ⟨hm, c, hc, _, ht⟩ := mem_edges_callGraph.mp he
  exact ⟨hm, closed_callGraph hw e.site c hm hc e.callee ht⟩

/-- An edge tells which method it leaves, so methods that are listed once have edges that are. -/
theorem nodup_edges_callGraph (hnodup : (h.callGraph entry).reachable.Nodup) :
    (h.callGraph entry).edges.Nodup := by
  change ((h.callGraph entry).reachable.flatMap h.callEdges).Nodup
  rw [List.nodup_flatMap]
  refine ⟨fun m _ => nodup_callEdges m, hnodup.imp ?_⟩
  intro m m' hne e he he'
  exact hne ((mem_callEdges.mp he).1.symm.trans (mem_callEdges.mp he').1)

/-- **The call graph is the least one.** -/
theorem isLeastCallGraph (hw : h.WellFormed) (entry : MethodId) :
    h.IsLeastCallGraph entry (h.callGraph entry) where
  entries := rfl
  entry_mem := entry_mem_callGraph hw
  closed := closed_callGraph hw
  least hentry hP := reachable_induction hw hentry fun s c _ hs hc => hP s c hs hc
  mem_edges := mem_edges_callGraph
  nodup_reachable := (finds_callGraph hw).nodup List.nodup_nil
  nodup_edges := nodup_edges_callGraph ((finds_callGraph hw).nodup List.nodup_nil)
  ends := ends_callGraph hw
  called {m} hm := by
    refine reachable_induction hw (P := fun m => m ≠ entry → ∃ e ∈ (h.callGraph entry).edges,
      e.callee = m) (fun hne => absurd rfl hne) ?_ m hm
    intro s c hs _ hc t ht _
    exact ⟨⟨c.kind, s, t⟩, mem_edges_callGraph.mpr ⟨hs, c, hc, rfl, ht⟩, rfl⟩
  drawable := by
    refine CallGraph.isSome_dot? ?_
    intro e he
    obtain ⟨hcaller, hcallee⟩ := ends_callGraph hw he
    exact CallGraph.isSome_dotEdge? hcaller hcallee

/-- **Class hierarchy analysis builds the least closed call graph** of every program and entry
method. The search for methods comes to its end, and so does every search for the targets of a
call. -/
theorem callGraph_isLeast [Nesting] {p : Program} (hp : p.Parsed) (entry : MethodId) :
    Search.Finds p.hierarchy.calledBy [entry] [] (p.hierarchy.callGraph entry).reachable ∧
      (∀ kind target, Resolves p.hierarchy target kind (p.hierarchy.callTargets kind target)) ∧
      p.hierarchy.IsLeastCallGraph entry (p.hierarchy.callGraph entry) ∧
      (p.hierarchy.callGraph entry).Indexed := by
  have hw := hp.classes_wellFormed
  have hleast := isLeastCallGraph hw entry
  exact ⟨finds_callGraph hw, resolves_callTargets hw, hleast,
    CallGraph.indexed_of_nodup hleast.nodup_edges⟩

end Hierarchy

/-! ## An example -/

namespace Recursion

/-- The method `void main()`, which stores the result of a call of the other method. -/
def main : Body where
  method := ⟨⟨"M", 0⟩, ⟨.primitive .void, "main", []⟩⟩
  params := []
  vars := [intVar 0 "s"]
  stmts := [
    .invoke (some (intVar 0 "s"))
      ⟨.static, ⟨⟨"M", 0⟩, ⟨.primitive .int, "f", [.primitive .int]⟩⟩, none, [.lit 7]⟩,
    .ret none]
  lines := [1, 1]

/-- The method `int f(int a)`, which calls itself unless its argument is seven. -/
def callee : Body where
  method := ⟨⟨"M", 0⟩, ⟨.primitive .int, "f", [.primitive .int]⟩⟩
  params := [intVar 0 "a"]
  vars := [intVar 0 "a", intVar 1 "b"]
  stmts := [
    .assign (.var (intVar 1 "b")) (.lit 3),
    .branch (.binary .eq (.var (intVar 0 "a")) (.lit 7)) (some 3),
    .invoke (some (intVar 1 "b"))
      ⟨.static, ⟨⟨"M", 0⟩, ⟨.primitive .int, "f", [.primitive .int]⟩⟩, none,
        [.var (intVar 0 "a")]⟩,
    .ret (some (.var (intVar 1 "b")))]
  lines := [1, 1, 1, 1]

def program : Program where
  hierarchy := {
    declared := [⟨⟨"M", 0⟩, false, false, none, [], [
      ⟨main.method, true, false, false, [], some main⟩,
      ⟨callee.method, true, false, false, ["a"], some callee⟩]⟩]
    members := [⟨"M", 0⟩] }
  main := none

set_option maxRecDepth 100000 in
theorem parsed_program : program.Parsed :=
  Program.parsed_of_ofText
    ("class M\x7bstatic void main()\x7bint s;s=invokestatic <M: int f(int)>(7);return;\x7dstatic " ++
      "int f(int a)\x7bint b;b=3;if(a==7)goto E;b=invokestatic <M: int f(int)>(a);E:return b;\x7d\x7d")
    (toList_append_of_eq String.toList_ofList String.toList_ofList) (by decide +kernel)

/-- The method that calls itself is found once, with both calls of it. -/
theorem callGraph_isLeast_program :
    (program.hierarchy.callGraph main.method).reachable = [main.method, callee.method] ∧
      (program.hierarchy.callGraph main.method).edges = [
        ⟨.static, ⟨0, main.method⟩, callee.method⟩,
        ⟨.static, ⟨2, callee.method⟩, callee.method⟩] ∧
      program.hierarchy.IsLeastCallGraph main.method
        (program.hierarchy.callGraph main.method) := by
  obtain ⟨_, _, hleast, _⟩ := Hierarchy.callGraph_isLeast parsed_program main.method
  exact ⟨by decide +kernel, by decide +kernel, hleast⟩

end Recursion

end TacFlow
