import Mathlib.Algebra.Group.Action.Defs
import Mathlib.Algebra.Order.BigOperators.Group.Finset
import Mathlib.Algebra.Order.BigOperators.Ring.Finset
import TacFlow.Proofs.Flow.Ending

/-!
# Two layers

A problem can end although its facts do not only rise. It suffices that the nodes fall into two
layers. At a *calm* node every change uses up some of a potential. The other nodes form a graph
without cycles below the calm ones, so that a change there can only move on towards its bottom.

The measure counts the potential first, and then the restless nodes that a visit would change, each
by a weight that exceeds the weights of all its users together.
-/

namespace TacFlow.Problem

variable {N F V : Type} [DecidableEq N] {p : Problem N F} {view : F → V} {scope : List N}
  {calm : N → Prop} {potential : Facts N F → Nat} {height : N → Nat} {facts : Facts N F} {n m : N}

/-- A layering of the nodes. -/
structure Layers (p : Problem N F) (scope : List N) (calm : N → Prop)
    (potential : Facts N F → Nat) (height : N → Nat) : Prop where
  /-- A change at a calm node uses up some of the potential. -/
  uses {facts : Facts N F} {n : N} : p.Reached scope facts → n ∈ scope → calm n →
    (p.visit facts n).2 = true → potential (p.visit facts n).1 < potential facts
  /-- Nothing else raises it. -/
  keeps {facts : Facts N F} {n : N} : p.Reached scope facts → n ∈ scope →
    ¬ calm n ∨ (p.visit facts n).2 = false → potential (p.visit facts n).1 ≤ potential facts
  /-- The users of a restless node are restless and lie lower. -/
  falls {n m : N} : n ∈ scope → ¬ calm n → m ∈ p.users n → ¬ calm m ∧ height m < height n

/-! ## What a visit changes elsewhere -/

/-- Whether a visit would change a node depends on what flows in and on its far fact. -/
theorem Lawful.flag_congr (hp : p.Lawful view) {facts facts' : Facts N F}
    (hin : ∀ e ∈ p.inflow m, view (p.farOf facts' e.1) = view (p.farOf facts e.1))
    (hfar : view (p.farOf facts' m) = view (p.farOf facts m)) :
    (p.visit facts' m).2 = (p.visit facts m).2 := by
  have hmerged := hp.merged_congr hin
  have htransfer := hp.transfer_congr m hmerged hfar
  rw [Bool.eq_iff_iff]
  change p.changes _ _ m = true ↔ p.changes _ _ m = true
  rw [hp.changes_iff, hp.changes_iff, htransfer, hfar]

/-- After a visit without a change the same nodes would change as before. -/
theorem Lawful.flag_of_unchanged (hp : p.Lawful view) (hc : facts.Covers p.nodes) (hn : n ∈ p.nodes)
    (h : (p.visit facts n).2 = false) (m : N) :
    (p.visit (p.visit facts n).1 m).2 = (p.visit facts m).2 :=
  hp.flag_congr (fun e _ => hp.farOf_visit_of_unchanged hc hn h e.1)
    (hp.farOf_visit_of_unchanged hc hn h m)

/-- A visit does not concern nodes that do not use the visited one. -/
theorem Lawful.flag_of_notMem_users (hp : p.Lawful view) (hm : m ≠ n) (hu : m ∉ p.users n) :
    (p.visit (p.visit facts n).1 m).2 = (p.visit facts m).2 := by
  refine hp.flag_congr ?_ ?_
  · intro e he
    have hne : e.1 ≠ n := fun hq => hu (hq ▸ hp.mem_users he)
    rw [farOf_visit_ne hne]
  · rw [farOf_visit_ne hm]

/-- A node that does not use itself would not change again. -/
theorem Lawful.flag_self (hp : p.Lawful view) (hc : facts.Covers p.nodes) (hn : n ∈ p.nodes)
    (hu : n ∉ p.users n) : (p.visit (p.visit facts n).1 n).2 = false := by
  rcases hp.settled_visit hc hn (Or.inl rfl) with ⟨_, hq⟩ | hset
  · exact absurd hq hu
  · rw [Bool.eq_false_iff]
    intro hflag
    have hch : p.changes (p.merged (p.visit facts n).1 n) (p.farOf (p.visit facts n).1 n) n =
        true := hflag
    rw [hp.changes_iff, hp.transfer_congr n hset.near.symm rfl] at hch
    exact hch hset.far

/-! ## The measure -/

section

open Classical

/-- A weight that exceeds the weights of all lower nodes of the scope together. -/
def nodeWeight (scope : List N) (height : N → Nat) (n : N) : Nat :=
  (scope.length + 1) ^ height n

/-- The weight of all restless nodes. -/
noncomputable def restless (scope : List N) (calm : N → Prop) (height : N → Nat) : Nat :=
  ∑ n ∈ scope.toFinset with ¬ calm n, nodeWeight scope height n

/-- The weight of the restless nodes that a visit would change. -/
noncomputable def unrest (p : Problem N F) (scope : List N) (calm : N → Prop) (height : N → Nat)
    (facts : Facts N F) : Nat :=
  ∑ n ∈ scope.toFinset with ¬ calm n ∧ (p.visit facts n).2 = true, nodeWeight scope height n

/-- The potential first, then the unrest. -/
noncomputable def layered (p : Problem N F) (scope : List N) (calm : N → Prop)
    (potential : Facts N F → Nat) (height : N → Nat) (facts : Facts N F) : Nat :=
  potential facts * (restless scope calm height + 1) + p.unrest scope calm height facts

theorem unrest_le : p.unrest scope calm height facts ≤ restless scope calm height := by
  refine Finset.sum_le_sum_of_subset ?_
  intro m hm
  simp only [Finset.mem_filter] at hm ⊢
  exact ⟨hm.1, hm.2.1⟩

/-- The weight of a node exceeds that of all lower nodes. -/
theorem sum_lt_nodeWeight {below : Finset N} (hsub : below ⊆ scope.toFinset)
    (hlow : ∀ m ∈ below, height m < height n) :
    ∑ m ∈ below, nodeWeight scope height m < nodeWeight scope height n := by
  have hcard : below.card ≤ scope.length :=
    (Finset.card_le_card hsub).trans (List.toFinset_card_le scope)
  have hone : ∀ m ∈ below,
      nodeWeight scope height m * (scope.length + 1) ≤ nodeWeight scope height n := by
    intro m hm
    unfold nodeWeight
    rw [← pow_succ]
    exact Nat.pow_le_pow_right (Nat.succ_pos _) (hlow m hm)
  have hpos : 0 < nodeWeight scope height n := Nat.pow_pos (Nat.succ_pos _)
  have htotal : (∑ m ∈ below, nodeWeight scope height m) * (scope.length + 1) ≤
      scope.length * nodeWeight scope height n := by
    calc (∑ m ∈ below, nodeWeight scope height m) * (scope.length + 1)
        = ∑ m ∈ below, nodeWeight scope height m * (scope.length + 1) := Finset.sum_mul _ _ _
      _ ≤ below.card • nodeWeight scope height n := Finset.sum_le_card_nsmul _ _ _ hone
      _ ≤ scope.length * nodeWeight scope height n := by
          rw [smul_eq_mul]; exact Nat.mul_le_mul_right _ hcard
  by_contra hge
  have hge' := Nat.mul_le_mul_right (scope.length + 1) (Nat.le_of_not_lt hge)
  rw [Nat.mul_succ, Nat.mul_comm _ scope.length] at hge'
  omega

/-- A change at a restless node lowers the unrest. -/
theorem unrest_lt (hp : p.Lawful view) (hs : p.Closed scope)
    (hl : p.Layers scope calm potential height) (hr : p.Reached scope facts) (hn : n ∈ scope)
    (hcalm : ¬ calm n) (hflag : (p.visit facts n).2 = true) :
    p.unrest scope calm height (p.visit facts n).1 < p.unrest scope calm height facts := by
  have hself : n ∉ p.users n := fun hu => absurd (hl.falls hn hcalm hu).2 (Nat.lt_irrefl _)
  -- what would change now would have changed before, or uses the visited node
  let before := scope.toFinset.filter fun m => ¬ calm m ∧ (p.visit facts m).2 = true
  let below := scope.toFinset.filter fun m => m ∈ p.users n
  have hsub : (scope.toFinset.filter fun m =>
      ¬ calm m ∧ (p.visit (p.visit facts n).1 m).2 = true) ⊆ before.erase n ∪ below := by
    intro m hm
    simp only [Finset.mem_filter, Finset.mem_union, Finset.mem_erase, before, below] at hm ⊢
    by_cases hu : m ∈ p.users n
    · exact Or.inr ⟨hm.1, hu⟩
    · by_cases hmn : m = n
      · subst hmn
        have hfalse := hp.flag_self (covers_reached hr) (hs.mem_nodes hn) hu
        exact absurd hm.2.2 (by simp [hfalse])
      · rw [hp.flag_of_notMem_users hmn hu] at hm
        exact Or.inl ⟨hmn, hm⟩
  have hlow : ∀ m ∈ below, height m < height n := by
    intro m hm
    exact (hl.falls hn hcalm (Finset.mem_filter.mp hm).2).2
  have hmem : n ∈ before := by simp [before, hn, hcalm, hflag]
  calc p.unrest scope calm height (p.visit facts n).1
      ≤ ∑ m ∈ before.erase n ∪ below, nodeWeight scope height m := Finset.sum_le_sum_of_subset hsub
    _ ≤ ∑ m ∈ before.erase n, nodeWeight scope height m +
          ∑ m ∈ below, nodeWeight scope height m := by
        rw [← Finset.sum_union_inter]; exact Nat.le_add_right _ _
    _ < ∑ m ∈ before.erase n, nodeWeight scope height m + nodeWeight scope height n :=
        Nat.add_lt_add_left (sum_lt_nodeWeight (Finset.filter_subset _ _) hlow) _
    _ = p.unrest scope calm height facts := Finset.sum_erase_add before _ hmem

/-- **The measure of a layered problem falls with every change.** -/
theorem descends_layered (hp : p.Lawful view) (hs : p.Closed scope)
    (hl : p.Layers scope calm potential height) :
    p.Descends scope (p.layered scope calm potential height) where
  changed {facts n} hr hn hflag := by
    unfold layered
    by_cases hcalm : calm n
    · have hpot := Nat.mul_le_mul_right (restless scope calm height + 1) (hl.uses hr hn hcalm hflag)
      rw [Nat.succ_mul] at hpot
      have hle : p.unrest scope calm height (p.visit facts n).1 ≤ restless scope calm height :=
        unrest_le
      omega
    · have hpot := Nat.mul_le_mul_right (restless scope calm height + 1)
        (hl.keeps hr hn (Or.inl hcalm))
      have := unrest_lt hp hs hl hr hn hcalm hflag
      omega
  unchanged {facts n} hr hn hflag := by
    unfold layered
    have hpot := Nat.mul_le_mul_right (restless scope calm height + 1)
      (hl.keeps hr hn (Or.inr hflag))
    have hsame : p.unrest scope calm height (p.visit facts n).1 =
        p.unrest scope calm height facts := by
      unfold unrest
      simp only [hp.flag_of_unchanged (covers_reached hr) (hs.mem_nodes hn) hflag]
    omega

end

end TacFlow.Problem
