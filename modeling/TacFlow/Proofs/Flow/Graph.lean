import TacFlow.Flow.Cfg

/-!
# The edges of a body

What the control flow graph of a body looks like from a node. The edges out of a statement are its
own ways out, the entry leads to the first statement, and the exit leads nowhere. Where every jump
has its targets and they lie in the body, which `Linked` says, every edge ends at a node of the
graph that is not the entry.
-/

namespace TacFlow

/-- Every jump has its targets, and they are positions of the body. -/
structure Body.Linked (b : Body) : Prop where
  /-- No target is missing. -/
  tight {s : Stmt} : s ∈ b.stmts → s.isLoose = false
  /-- No target lies outside. -/
  inside {s : Stmt} {t : Nat} : s ∈ b.stmts → t ∈ s.targets → t < b.stmts.length

theorem Body.Linked.looseJumps_eq_nil {b : Body} (hb : b.Linked) : b.looseJumps = [] := by
  refine List.filterMap_eq_nil_iff.mpr ?_
  rintro ⟨s, i⟩ hs
  have := hb.tight (List.mem_of_getElem? (List.mk_mem_zipIdx_iff_getElem?.mp hs))
  simp [this]

/-- The point at which the execution of a body begins. -/
def Body.first (b : Body) : Point :=
  if b.stmts.isEmpty then .exit else .stmt 0

theorem Body.mem_points {b : Body} {p : Point} :
    p ∈ b.points ↔ p = .entry ∨ (∃ i, i < b.stmts.length ∧ p = .stmt i) ∨ p = .exit := by
  simp only [Body.points, List.cons_append, List.mem_cons, List.mem_append, List.mem_map,
    List.mem_range, List.not_mem_nil, or_false]
  grind

theorem Body.entry_mem_points (b : Body) : .entry ∈ b.points :=
  mem_points.mpr (Or.inl rfl)

theorem Body.exit_mem_points (b : Body) : .exit ∈ b.points :=
  mem_points.mpr (Or.inr (Or.inr rfl))

theorem Body.stmt_mem_points {b : Body} {i : Nat} {s : Stmt} (h : b.stmts[i]? = some s) :
    .stmt i ∈ b.points :=
  mem_points.mpr (Or.inr (Or.inl ⟨i, (List.getElem?_eq_some_iff.mp h).1, rfl⟩))

theorem Body.nodup_points (b : Body) : b.points.Nodup := by
  have hrange : ((List.range b.stmts.length).map Point.stmt).Nodup :=
    List.Pairwise.map _ (fun i j hne h => hne (Point.stmt.inj h)) List.nodup_range
  simp [points, List.nodup_append, hrange]

theorem Body.at?_eq_some {b : Body} {p : Point} {s : Stmt} :
    b.at? p = some s ↔ ∃ i, p = .stmt i ∧ b.stmts[i]? = some s := by
  cases p <;> simp [at?]

/-- No statement is at the entry. -/
theorem Body.ne_entry_of_at? {b : Body} {p : Point} {s : Stmt} (h : b.at? p = some s) :
    p ≠ .entry := by
  obtain ⟨i, rfl, _⟩ := at?_eq_some.mp h
  simp

namespace Cfg

variable {g : Cfg} {b : Body} {p q : Point} {i : Nat} {s : Stmt} {e : Edge}

/-! ## Successors and predecessors -/

/-- A node leads to its successors. -/
def Leads (g : Cfg) (p q : Point) : Prop :=
  q ∈ g.succs p

theorem mem_succs : q ∈ g.succs p ↔ ∃ e ∈ g.edges, e.source = p ∧ e.target = q := by
  simp only [succs, outEdges, List.mem_map, List.mem_filter, decide_eq_true_eq, and_assoc]

theorem mem_preds : p ∈ g.preds q ↔ ∃ e ∈ g.edges, e.source = p ∧ e.target = q := by
  simp only [preds, inEdges, List.mem_map, List.mem_filter, decide_eq_true_eq, and_assoc]
  constructor
  · rintro ⟨e, he, ht, hs⟩; exact ⟨e, he, hs, ht⟩
  · rintro ⟨e, he, hs, ht⟩; exact ⟨e, he, ht, hs⟩

theorem mem_preds_iff : p ∈ g.preds q ↔ q ∈ g.succs p := by
  rw [mem_preds, mem_succs]

/-! ## Edges of a body -/

theorem source_of_mem_exitsOf (h : some e ∈ exitsOf b i s) : e.source = .stmt i := by
  cases s <;> simp [exitsOf, @eq_comm _ (some e)] at h <;> grind

theorem mem_edgesFrom : e ∈ edgesFrom b i s ↔ some e ∈ exitsOf b i s := by
  simp [edgesFrom]

theorem mem_edges_ofBody :
    e ∈ (ofBody b).edges ↔
      e = entryEdge b ∨ ∃ i s, b.stmts[i]? = some s ∧ some e ∈ exitsOf b i s := by
  simp only [ofBody, List.mem_cons, List.mem_flatMap, Prod.exists, List.mk_mem_zipIdx_iff_getElem?,
    mem_edgesFrom]
  constructor
  · rintro (h | ⟨s, i, hs, he⟩)
    · exact Or.inl h
    · exact Or.inr ⟨i, s, hs, he⟩
  · rintro (h | ⟨i, s, hs, he⟩)
    · exact Or.inl h
    · exact Or.inr ⟨s, i, hs, he⟩

/-- The edges out of a statement are its own ways out. -/
theorem mem_outEdges_stmt :
    e ∈ (ofBody b).outEdges (.stmt i) ↔ ∃ s, b.stmts[i]? = some s ∧ some e ∈ exitsOf b i s := by
  rw [outEdges, List.mem_filter, mem_edges_ofBody, decide_eq_true_eq]
  constructor
  · rintro ⟨rfl | ⟨j, s, hs, he⟩, hsource⟩
    · exact absurd hsource (by simp [entryEdge])
    · -- an edge from this point can only be a way out of this statement
      have hj : j = i := by
        rw [source_of_mem_exitsOf he] at hsource
        exact Point.stmt.inj hsource
      exact ⟨s, hj ▸ hs, hj ▸ he⟩
  · rintro ⟨s, hs, he⟩
    exact ⟨Or.inr ⟨i, s, hs, he⟩, source_of_mem_exitsOf he⟩

theorem mem_succs_stmt :
    q ∈ (ofBody b).succs (.stmt i) ↔
      ∃ s, b.stmts[i]? = some s ∧ ∃ e, some e ∈ exitsOf b i s ∧ e.target = q := by
  simp only [succs, List.mem_map, mem_outEdges_stmt]
  constructor
  · rintro ⟨e, ⟨s, hs, he⟩, ht⟩; exact ⟨s, hs, e, he, ht⟩
  · rintro ⟨s, hs, e, he, ht⟩; exact ⟨e, ⟨s, hs, he⟩, ht⟩

theorem mem_succs_of_mem_cases {x : Var} {cases : List (Int × Nat)} {default : Option Nat}
    (hs : b.stmts[i]? = some (.switch x cases default)) {d : Int × Nat} (hd : d ∈ cases) :
    .stmt d.2 ∈ (ofBody b).succs (.stmt i) := by
  have hmem := List.mem_map_of_mem (f := fun d : Int × Nat =>
    some (Edge.mk (.stmt i) (.stmt d.2) .switchCase (some d.1))) hd
  exact mem_succs_stmt.mpr ⟨_, hs, _, List.mem_append_left _ hmem, rfl⟩

theorem mem_succs_default {x : Var} {cases : List (Int × Nat)} {k : Nat}
    (hs : b.stmts[i]? = some (.switch x cases (some k))) :
    .stmt k ∈ (ofBody b).succs (.stmt i) :=
  mem_succs_stmt.mpr ⟨_, hs, ⟨.stmt i, .stmt k, .switchDefault, none⟩, by simp [exitsOf], rfl⟩

theorem mem_succs_entry : q ∈ (ofBody b).succs .entry ↔ q = b.first := by
  rw [mem_succs]
  constructor
  · rintro ⟨e, he, hs, rfl⟩
    rcases mem_edges_ofBody.mp he with rfl | ⟨i, s, _, he⟩
    · rfl
    · rw [source_of_mem_exitsOf he] at hs
      exact absurd hs (by simp)
  · rintro rfl
    exact ⟨entryEdge b, mem_edges_ofBody.mpr (Or.inl rfl), rfl, rfl⟩

/-! ## Where edges begin and end -/

/-- Every edge begins at a node other than the exit. -/
theorem source_mem (he : e ∈ (ofBody b).edges) :
    e.source ∈ (ofBody b).nodes ∧ e.source ≠ .exit := by
  rcases mem_edges_ofBody.mp he with rfl | ⟨i, s, hs, he⟩
  · exact ⟨b.entry_mem_points, by simp [entryEdge]⟩
  · rw [source_of_mem_exitsOf he]
    exact ⟨Body.stmt_mem_points hs, by simp⟩

theorem mem_points_of_mem_preds (h : p ∈ (ofBody b).preds q) : p ∈ b.points := by
  obtain ⟨e, he, rfl, _⟩ := mem_preds.mp h
  exact (source_mem he).1

theorem following_mem_points : b.following i ∈ b.points := by
  rw [Body.mem_points, Body.following]
  split
  · rename_i hi; exact Or.inr (Or.inl ⟨i + 1, hi, rfl⟩)
  · exact Or.inr (Or.inr rfl)

theorem following_ne_entry : b.following i ≠ .entry := by
  rw [Body.following]
  split <;> simp

theorem first_mem_points : b.first ∈ b.points := by
  rw [Body.mem_points, Body.first]
  split
  · exact Or.inr (Or.inr rfl)
  · rename_i h
    exact Or.inr (Or.inl ⟨0, by simpa [List.length_pos_iff] using h, rfl⟩)

theorem first_ne_entry : b.first ≠ .entry := by
  rw [Body.first]
  split <;> simp

/-- A way out of a statement ends behind it, at the exit, or at one of its targets. -/
theorem target_of_mem_exitsOf (h : some e ∈ exitsOf b i s) :
    e.target = b.following i ∨ e.target = .exit ∨ ∃ t ∈ s.targets, e.target = .stmt t := by
  cases s <;> simp [exitsOf, Stmt.targets, @eq_comm _ (some e)] at h ⊢ <;> grind

/-- **Every edge ends at a node other than the entry.** -/
theorem Linked.target_mem (hb : b.Linked) (he : e ∈ (ofBody b).edges) :
    e.target ∈ b.points ∧ e.target ≠ .entry := by
  rcases mem_edges_ofBody.mp he with rfl | ⟨i, s, hs, he⟩
  · exact ⟨first_mem_points, first_ne_entry⟩
  · rcases target_of_mem_exitsOf he with ht | ht | ⟨t, ht, hq⟩
    · rw [ht]; exact ⟨following_mem_points, following_ne_entry⟩
    · rw [ht]; exact ⟨b.exit_mem_points, by simp⟩
    · rw [hq]
      have := hb.inside (List.mem_of_getElem? hs) ht
      exact ⟨Body.mem_points.mpr (Or.inr (Or.inl ⟨t, this, rfl⟩)), by simp⟩

theorem Linked.mem_succs (hb : b.Linked) (h : q ∈ (ofBody b).succs p) :
    q ∈ b.points ∧ q ≠ .entry := by
  obtain ⟨e, he, _, rfl⟩ := Cfg.mem_succs.mp h
  exact Linked.target_mem hb he

end Cfg

end TacFlow
