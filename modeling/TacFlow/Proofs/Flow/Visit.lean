import TacFlow.Flow.Sweep
import TacFlow.Flow.Worklist

/-!
# What a visit settles

A solver does nothing but visit nodes, so everything it computes is a statement about visits. This
file says what one visit does to the facts, and when a node is *settled*: its near fact is what
flows into it now, and its transfer leaves its far fact as it is.

A visit settles its own node, and it unsettles another node only if it changed a far fact that the
other node uses. That is the whole reason why a queue of pending nodes suffices, and why a sweep
without a change is the last one.

Facts are compared by what they say and not by how they are listed: `view` is the meaning of a fact.
-/

namespace TacFlow

namespace Table

variable {N F : Type}

/-- The nodes that a table has a fact for. -/
def nodes (t : Table N F) : List N :=
  t.entries.map (·.1)

@[simp] theorem nodes_ofNodes (ns : List N) (fact : N → F) : (ofNodes ns fact).nodes = ns := by
  simp [nodes, ofNodes, Function.comp_def]

variable [DecidableEq N]

@[simp] theorem nodes_set (t : Table N F) (n : N) (fact : F) : (t.set n fact).nodes = t.nodes := by
  unfold nodes set
  rw [List.map_map]
  refine List.map_congr_left ?_
  intro e _
  by_cases h : e.1 = n
  · simp [h]
  · simp [h]

theorem get?_ofNodes {ns : List N} (fact : N → F) {n : N} (h : n ∈ ns) :
    (ofNodes ns fact).get? n = some (fact n) := by
  unfold get? ofNodes
  induction ns with
  | nil => exact absurd h (by simp)
  | cons m ns ih =>
      by_cases hm : m = n
      · subst hm; simp
      · have hn : n ∈ ns := (List.mem_cons.mp h).resolve_left (fun he => hm he.symm)
        simpa [hm] using ih hn

theorem get?_set_self {t : Table N F} {n : N} (fact : F) (h : n ∈ t.nodes) :
    (t.set n fact).get? n = some fact := by
  obtain ⟨es⟩ := t
  unfold get? set
  simp only [nodes] at h
  induction es with
  | nil => exact absurd h (by simp)
  | cons e es ih =>
      by_cases he : e.1 = n
      · simp [he]
      · have hn : n ∈ es.map (·.1) := (List.mem_cons.mp h).resolve_left (fun hq => he hq.symm)
        simpa [he] using ih hn

theorem get?_set_ne (t : Table N F) {m n : N} (fact : F) (h : m ≠ n) :
    (t.set n fact).get? m = t.get? m := by
  obtain ⟨es⟩ := t
  unfold get? set
  induction es with
  | nil => rfl
  | cons e es ih =>
      by_cases he : e.1 = n
      · have hm : e.1 ≠ m := fun hq => h (hq.symm.trans he)
        simpa [List.find?_cons, he, hm, h.symm] using ih
      · by_cases hm : e.1 = m
        · simp [hm, h]
        · simpa [List.find?_cons, he, hm] using ih

theorem get?_eq_none {t : Table N F} {n : N} (h : n ∉ t.nodes) : t.get? n = none := by
  unfold get?
  rw [Option.map_eq_none_iff, List.find?_eq_none]
  intro e he hq
  exact h (List.mem_map.mpr ⟨e, he, by simpa using hq⟩)

theorem mem_nodes_of_get? {t : Table N F} {n : N} {fact : F} (h : t.get? n = some fact) :
    n ∈ t.nodes := by
  refine Decidable.byContradiction fun hn => ?_
  rw [get?_eq_none hn] at h
  exact Option.some_ne_none fact h.symm

theorem get?_isSome {t : Table N F} {n : N} (h : n ∈ t.nodes) : (t.get? n).isSome := by
  obtain ⟨e, he, rfl⟩ := List.mem_map.mp h
  unfold get?
  rw [Option.isSome_map, List.find?_isSome]
  exact ⟨e, he, by simp⟩

end Table

/-- Both tables list the given nodes. -/
structure Facts.Covers {N F : Type} (facts : Facts N F) (ns : List N) : Prop where
  /-- The near facts do. -/
  near : facts.near.nodes = ns
  /-- The far facts do. -/
  far : facts.far.nodes = ns

namespace Problem

variable {N F V : Type} {p : Problem N F} {view : F → V} {facts : Facts N F} {n m : N}

/-! ## Problems that respect the meaning of facts -/

/-- The operations of a problem respect what facts mean, a transfer has nothing to add when it is
repeated, and the users of a node are all the nodes that take something from it. -/
structure Lawful (p : Problem N F) (view : F → V) : Prop where
  /-- The test for equality compares meanings. -/
  same_iff (f g : F) : p.same f g = true ↔ view f = view g
  /-- Joining respects meanings. -/
  join_congr {f f' g g' : F} :
    view f = view f' → view g = view g' → view (p.join f g) = view (p.join f' g')
  /-- What happens to a fact on the way respects meanings. -/
  along_congr {n : N} {e : N × (F → F)} {f f' : F} :
    e ∈ p.inflow n → view f = view f' → view (e.2 f) = view (e.2 f')
  /-- A transfer respects meanings. -/
  transfer_congr (n : N) {f f' g g' : F} :
    view f = view f' → view g = view g' → view (p.transfer n f g) = view (p.transfer n f' g')
  /-- Repeating a transfer changes nothing. -/
  transfer_idem (n : N) (f g : F) :
    view (p.transfer n f (p.transfer n f g)) = view (p.transfer n f g)
  /-- A node that takes something from another one is a user of it. -/
  mem_users {n : N} {e : N × (F → F)} : e ∈ p.inflow n → n ∈ p.users e.1

theorem Lawful.changes_iff (hp : p.Lawful view) (near far : F) (n : N) :
    p.changes near far n = true ↔ view (p.transfer n near far) ≠ view far := by
  unfold changes
  rw [Bool.not_eq_true', ← Bool.not_eq_true, hp.same_iff]

theorem Lawful.not_changes_iff (hp : p.Lawful view) (near far : F) (n : N) :
    (!p.changes near far n) = true ↔ view (p.transfer n near far) = view far := by
  rw [Bool.not_eq_true', ← Bool.not_eq_true, hp.changes_iff]
  exact Classical.not_not

/-! ## One visit -/

theorem covers_initial (p : Problem N F) : p.initial.Covers p.nodes :=
  ⟨by simp [initial], by simp [initial]⟩

variable [DecidableEq N]

theorem covers_visit (h : facts.Covers p.nodes) (n : N) : (p.visit facts n).1.Covers p.nodes :=
  ⟨by simp [visit, h.near], by simp [visit, h.far]⟩

theorem nearOf_visit_self (h : facts.Covers p.nodes) (hn : n ∈ p.nodes) :
    p.nearOf (p.visit facts n).1 n = p.merged facts n := by
  unfold nearOf visit
  rw [Table.get?_set_self _ (h.near ▸ hn)]
  rfl

theorem nearOf_visit_ne (h : m ≠ n) :
    p.nearOf (p.visit facts n).1 m = p.nearOf facts m := by
  unfold nearOf visit
  rw [Table.get?_set_ne _ _ h]

theorem farOf_visit_self (h : facts.Covers p.nodes) (hn : n ∈ p.nodes) :
    p.farOf (p.visit facts n).1 n = p.transfer n (p.merged facts n) (p.farOf facts n) := by
  unfold farOf visit
  rw [Table.get?_set_self _ (h.far ▸ hn)]
  rfl

theorem farOf_visit_ne (h : m ≠ n) : p.farOf (p.visit facts n).1 m = p.farOf facts m := by
  unfold farOf visit
  rw [Table.get?_set_ne _ _ h]

theorem get?_near (h : facts.Covers p.nodes) (hn : n ∈ p.nodes) :
    facts.near.get? n = some (p.nearOf facts n) := by
  obtain ⟨fact, hfact⟩ := Option.isSome_iff_exists.mp (Table.get?_isSome (h.near.symm ▸ hn))
  rw [nearOf, hfact, Option.getD_some]

theorem get?_far (h : facts.Covers p.nodes) (hn : n ∈ p.nodes) :
    facts.far.get? n = some (p.farOf facts n) := by
  obtain ⟨fact, hfact⟩ := Option.isSome_iff_exists.mp (Table.get?_isSome (h.far.symm ▸ hn))
  rw [farOf, hfact, Option.getD_some]

theorem farOf_initial (hn : n ∈ p.nodes) : p.farOf p.initial n = p.start n := by
  unfold farOf initial
  rw [Table.get?_ofNodes _ hn]
  rfl

theorem farOf_initial_of_notMem (hn : n ∉ p.nodes) : p.farOf p.initial n = p.bottom := by
  unfold farOf
  rw [Table.get?_eq_none ((covers_initial p).far ▸ hn)]
  rfl

theorem nearOf_initial (hn : n ∈ p.nodes) : p.nearOf p.initial n = p.bottom := by
  unfold nearOf initial
  rw [Table.get?_ofNodes _ hn]
  rfl

/-- Merging depends only on what the far facts mean that flow in. -/
theorem Lawful.merged_congr (hp : p.Lawful view) {facts facts' : Facts N F}
    (h : ∀ e ∈ p.inflow n, view (p.farOf facts e.1) = view (p.farOf facts' e.1)) :
    view (p.merged facts n) = view (p.merged facts' n) := by
  unfold merged
  have key : ∀ (es : List (N × (F → F))) (f f' : F), (∀ e ∈ es, e ∈ p.inflow n) →
      view f = view f' →
      view (es.foldl (fun acc e => p.join acc (e.2 (p.farOf facts e.1))) f) =
        view (es.foldl (fun acc e => p.join acc (e.2 (p.farOf facts' e.1))) f') := by
    intro es
    induction es with
    | nil => intro f f' _ hf; exact hf
    | cons e es ih =>
        intro f f' hes hf
        have he : e ∈ p.inflow n := hes e (by simp)
        refine ih _ _ (fun d hd => hes d (List.mem_cons_of_mem e hd)) ?_
        exact hp.join_congr hf (hp.along_congr he (h e he))
  exact key _ _ _ (fun e he => he) rfl

/-! ## Settled nodes -/

/-- The facts of a node agree with those of the nodes it takes something from. -/
structure Settled (p : Problem N F) (view : F → V) (facts : Facts N F) (n : N) : Prop where
  /-- The near fact is what flows in. -/
  near : view (p.nearOf facts n) = view (p.merged facts n)
  /-- The transfer leaves the far fact as it is. -/
  far : view (p.transfer n (p.nearOf facts n) (p.farOf facts n)) = view (p.farOf facts n)

/-- A visit that reports no change leaves the meaning of every far fact as it is. -/
theorem Lawful.farOf_visit_of_unchanged (hp : p.Lawful view) (hc : facts.Covers p.nodes)
    (hn : n ∈ p.nodes) (h : (p.visit facts n).2 = false) (m : N) :
    view (p.farOf (p.visit facts n).1 m) = view (p.farOf facts m) := by
  by_cases hm : m = n
  · subst hm
    rw [farOf_visit_self hc hn]
    by_cases hs : view (p.transfer m (p.merged facts m) (p.farOf facts m)) = view (p.farOf facts m)
    · exact hs
    · have hflag : (p.visit facts m).2 = true := (hp.changes_iff _ _ _).mpr hs
      rw [hflag] at h
      exact absurd h (by simp)
  · rw [farOf_visit_ne hm]

/-- A visit that reports a change has changed what the far fact of its node means. -/
theorem Lawful.farOf_visit_of_changed (hp : p.Lawful view) (hc : facts.Covers p.nodes)
    (hn : n ∈ p.nodes) (h : (p.visit facts n).2 = true) :
    view (p.farOf (p.visit facts n).1 n) ≠ view (p.farOf facts n) := by
  rw [farOf_visit_self hc hn]
  exact (hp.changes_iff _ _ n).mp h

/-- **A visit settles its node, and unsettles users of a changed fact only.** -/
theorem Lawful.settled_visit (hp : p.Lawful view) (hc : facts.Covers p.nodes) (hn : n ∈ p.nodes)
    (h : m = n ∨ p.Settled view facts m) :
    ((p.visit facts n).2 = true ∧ m ∈ p.users n) ∨ p.Settled view (p.visit facts n).1 m := by
  by_cases huse : (p.visit facts n).2 = true ∧ m ∈ p.users n
  · exact Or.inl huse
  right
  -- what flows into `m` is the same after the visit as before it
  have hmerged : view (p.merged facts m) = view (p.merged (p.visit facts n).1 m) := by
    refine hp.merged_congr ?_
    intro e he
    by_cases hen : e.1 = n
    · have hm : m ∈ p.users n := hen ▸ hp.mem_users he
      have hflag : (p.visit facts n).2 = false := by
        simpa using fun hq => huse ⟨hq, hm⟩
      exact (hp.farOf_visit_of_unchanged hc hn hflag e.1).symm
    · rw [farOf_visit_ne hen]
  by_cases hmn : m = n
  · subst hmn
    refine ⟨?_, ?_⟩
    · rw [nearOf_visit_self hc hn]; exact hmerged
    · rw [nearOf_visit_self hc hn, farOf_visit_self hc hn]
      exact hp.transfer_idem _ _ _
  · obtain ⟨hnear, hfar⟩ := h.resolve_left hmn
    refine ⟨?_, ?_⟩
    · rw [nearOf_visit_ne hmn]; exact hnear.trans hmerged
    · rw [nearOf_visit_ne hmn, farOf_visit_ne hmn]; exact hfar

end Problem

end TacFlow
