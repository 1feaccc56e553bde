import Mathlib.Data.List.Perm.Subperm
import Mathlib.Data.Set.Basic
import TacFlow.Liveness.Analysis
import TacFlow.Proofs.Flow.Graph
import TacFlow.Proofs.Flow.Schedule

/-!
# The equations of live variables

What a solved liveness analysis satisfies: a variable that a node reads is live before it, and so is
one that is live after it unless the node writes it. What is live before a node is live after its
predecessors.

The meaning of a listed set is the set of its members.
-/

namespace TacFlow

namespace FinSet

variable {α : Type} {s t : FinSet α} {a b : α}

/-- The elements of a listed set. -/
def members (s : FinSet α) : Set α :=
  {a | a ∈ s.elements}

@[simp] theorem mem_members : a ∈ s.members ↔ a ∈ s.elements := Iff.rfl

variable [DecidableEq α]

theorem mem_insert : b ∈ (s.insert a).elements ↔ b = a ∨ b ∈ s.elements := by
  unfold insert
  split
  · rename_i h
    constructor
    · exact Or.inr
    · rintro (rfl | hb)
      · exact h
      · exact hb
  · exact List.mem_cons

theorem mem_erase : b ∈ (s.erase a).elements ↔ b ∈ s.elements ∧ b ≠ a := by
  simp [erase]

theorem mem_foldl_insert (as : List α) (s : FinSet α) :
    b ∈ (as.foldl insert s).elements ↔ b ∈ s.elements ∨ b ∈ as := by
  induction as generalizing s with
  | nil => simp
  | cons a as ih =>
      rw [List.foldl_cons, ih, mem_insert, List.mem_cons]
      constructor
      · rintro ((rfl | h) | h)
        · exact Or.inr (Or.inl rfl)
        · exact Or.inl h
        · exact Or.inr (Or.inr h)
      · rintro (h | rfl | h)
        · exact Or.inl (Or.inr h)
        · exact Or.inl (Or.inl rfl)
        · exact Or.inr h

theorem mem_union : b ∈ (s.union t).elements ↔ b ∈ s.elements ∨ b ∈ t.elements :=
  mem_foldl_insert _ _

/-- **Listed sets pass for the same if they have the same members.** -/
theorem same_iff : s.same t = true ↔ s.members = t.members := by
  unfold same
  rw [Bool.and_eq_true, beq_iff_eq, List.all_eq_true]
  constructor
  · rintro ⟨hsize, hall⟩
    have hsub : s.elements ⊆ t.elements := fun a ha => by simpa [contains] using hall a ha
    -- a sublist that is not shorter is all of it
    have hperm : s.elements.Perm t.elements :=
      (List.subperm_of_subset s.nodup hsub).perm_of_length_le (Nat.le_of_eq hsize.symm)
    ext a
    exact hperm.mem_iff
  · intro h
    have hperm : s.elements.Perm t.elements :=
      (List.perm_ext_iff_of_nodup s.nodup t.nodup).mpr fun a => Set.ext_iff.mp h a
    exact ⟨hperm.length_eq, fun a ha => by simpa [contains] using hperm.mem_iff.mp ha⟩

end FinSet

namespace Liveness

variable {g : Cfg} {b : Body} {p q n : Point} {facts : Facts Point (FinSet Var)}
  {f after : FinSet Var} {s : Stmt} {x : Var}

/-! ## The problem -/

/-- A variable is live before a statement that reads it, and before one that does not write it if
it is live afterwards. -/
theorem mem_transferStmt :
    x ∈ (transferStmt (some s) after).elements ↔
      x ∈ s.uses ∨ x ∈ after.elements ∧ s.defined ≠ some x := by
  unfold transferStmt
  rw [FinSet.mem_foldl_insert]
  cases hd : s.defined with
  | none =>
      constructor
      · rintro (h | h)
        · exact Or.inr ⟨h, by simp⟩
        · exact Or.inl h
      · rintro (h | ⟨h, _⟩)
        · exact Or.inr h
        · exact Or.inl h
  | some y =>
      rw [FinSet.mem_erase]
      constructor
      · rintro (⟨h, hne⟩ | h)
        · exact Or.inr ⟨h, fun hq => hne (Option.some.inj hq).symm⟩
        · exact Or.inl h
      · rintro (h | ⟨h, hne⟩)
        · exact Or.inr h
        · exact Or.inl ⟨h, fun hq => hne (hq ▸ rfl)⟩

theorem members_transferStmt_congr {f f' : FinSet Var} (s : Option Stmt)
    (h : f.members = f'.members) :
    (transferStmt s f).members = (transferStmt s f').members := by
  cases s with
  | none => exact h
  | some s =>
      ext x
      have hx := Set.ext_iff.mp h x
      simp only [FinSet.mem_members] at hx
      rw [FinSet.mem_members, FinSet.mem_members, mem_transferStmt, mem_transferStmt, hx]

theorem lawful (g : Cfg) : (problem g).Lawful FinSet.members where
  same_iff _ _ := FinSet.same_iff
  join_congr {f f' g g'} hf hg := by
    ext x
    have hfx := Set.ext_iff.mp hf x
    have hgx := Set.ext_iff.mp hg x
    simp only [FinSet.mem_members] at hfx hgx
    rw [FinSet.mem_members, FinSet.mem_members, problem, FinSet.mem_union, FinSet.mem_union, hfx,
      hgx]
  along_congr {n e f f'} he hf := by
    obtain ⟨q, _, rfl⟩ := List.mem_map.mp he
    exact hf
  transfer_congr n {f f' g g'} hf _ := members_transferStmt_congr _ hf
  transfer_idem _ _ _ := rfl
  mem_users {n e} he := by
    obtain ⟨q, hq, rfl⟩ := List.mem_map.mp he
    exact Cfg.mem_preds_iff.mpr hq

theorem mem_visited : n ∈ visited g ↔ n ∈ g.nodes ∧ n ≠ .exit := by
  simp [visited]

theorem closed (b : Body) : (problem (Cfg.ofBody b)).Closed (visited (Cfg.ofBody b)) where
  mem_nodes h := (mem_visited.mp h).1
  mem_users {n m} _ h := by
    obtain ⟨e, he, rfl, _⟩ := Cfg.mem_preds.mp h
    exact mem_visited.mpr (Cfg.source_mem he)

/-! ## Solutions -/

/-- The variables live before a node. -/
def beforeAt (s : Solution Point (FinSet Var)) (n : Point) : FinSet Var :=
  (s.before.get? n).getD .empty

/-- The variables live after a node. -/
def afterAt (s : Solution Point (FinSet Var)) (n : Point) : FinSet Var :=
  (s.after.get? n).getD .empty

/-- What the live variables before and after the nodes of a graph satisfy once they are solved. -/
structure Stable (g : Cfg) (before after : Point → FinSet Var) : Prop where
  /-- What is live before a node is live after its predecessors. -/
  flows {p q : Point} {x : Var} : p ∈ g.nodes → p ≠ .exit → q ∈ g.succs p →
    x ∈ (before q).elements → x ∈ (after p).elements
  /-- What is live before a node is what it reads, and what it does not write of what is live
  afterwards. -/
  transfers {n : Point} {x : Var} : n ∈ g.nodes → n ≠ .exit →
    (x ∈ (before n).elements ↔ x ∈ (transferStmt (g.body.at? n) (after n)).elements)

/-- A solver returns a solution, after however many sweeps. -/
def Returns (g : Cfg) (s : Solution Point (FinSet Var)) : Prop :=
  ∃ fuel, solveWithin g fuel = some s

/-- What flows into a node is what is live before one of its successors. -/
theorem mem_merged : x ∈ ((problem g).merged facts n).elements ↔
    ∃ q ∈ g.succs n, x ∈ ((problem g).farOf facts q).elements := by
  have key : ∀ (qs : List Point) (f : FinSet Var),
      x ∈ ((qs.map fun q => (q, (id : FinSet Var → FinSet Var))).foldl
        (fun acc e => acc.union (e.2 ((problem g).farOf facts e.1))) f).elements ↔
        x ∈ f.elements ∨ ∃ q ∈ qs, x ∈ ((problem g).farOf facts q).elements := by
    intro qs
    induction qs with
    | nil => intro f; simp
    | cons q qs ih =>
        intro f
        rw [List.map_cons, List.foldl_cons, ih, FinSet.mem_union, List.exists_mem_cons_iff, or_assoc]
        rfl
  refine (key (g.succs n) .empty).trans ⟨fun h => ?_, Or.inr⟩
  exact h.resolve_left (by simp [FinSet.empty])

/-- Settled facts satisfy the equations. -/
theorem stable_of_solved (h : (problem g).Solved FinSet.members (visited g) facts) :
    Stable g ((problem g).farOf facts) ((problem g).nearOf facts) where
  flows {p q x} hp hne hq hx := by
    have hnear := Set.ext_iff.mp (h.settled (mem_visited.mpr ⟨hp, hne⟩)).near x
    exact hnear.mpr (mem_merged.mpr ⟨q, hq, hx⟩)
  transfers {n x} hn hne :=
    (Set.ext_iff.mp (h.settled (mem_visited.mpr ⟨hn, hne⟩)).far x).symm

/-- **What the solver returns satisfies the equations.** -/
theorem stable_of_returns {s : Solution Point (FinSet Var)} (h : Returns (.ofBody b) s) :
    Stable (.ofBody b) (beforeAt s) (afterAt s) := by
  obtain ⟨fuel, h⟩ := h
  obtain ⟨facts, hf, rfl⟩ := Option.map_eq_some_iff.mp h
  exact stable_of_solved (Problem.solved_solveSweeping (lawful _) (closed b) hf)

/-- Whatever is asked for by the name of a solver comes from the sweeping solver. -/
theorem returns_of_solve {name : Option String} {s : Solution Point (FinSet Var)}
    (h : solve g name = .ok s) : Returns g s := by
  have key : sweep g = .ok s → Returns g s := by
    intro h
    unfold sweep at h
    split at h
    · cases hs : solveWithin g visitLimit with
      | none => rw [hs] at h; exact absurd h (by simp [finished])
      | some s' => rw [hs] at h; cases h; exact ⟨visitLimit, hs⟩
    · exact absurd h (by simp)
  unfold solve at h
  split at h
  · exact key h
  · split at h
    · exact key h
    · exact absurd h (by simp)
    · exact absurd h (by simp)

end Liveness

end TacFlow
