import Mathlib.Order.Bounds.Basic
import TacFlow.Proofs.Constant.Operations

/-!
# Merging many environments

What holds before a node with several predecessors is merged from what holds after each of them, one
after another into a fresh environment. An environment is a function into the lattice of values, and a
join of environments is their join as functions, so the merged environment is the least one above all
of them. What is least above some environments depends on which they are, and not on how they are
listed: their order, how they are grouped, and how often each of them comes are of no account. Objects
that are joined into a fresh one in place come to that environment as well.
-/

namespace TacFlow

namespace Env

variable {fs gs : List Env} {f : Env} {m : Var → Value}

/-- Joins environments one after another into a fresh one. -/
def joinAll (fs : List Env) : Env :=
  fs.foldl joinWith empty

theorem joinAll_le_iff : (joinAll fs).get ≤ m ↔ ∀ f ∈ fs, f.get ≤ m := by
  have hempty : empty.get ≤ m := fun x => Value.unassigned_le (m x)
  rw [joinAll, foldl_joinWith_le_iff, and_iff_right hempty]

/-- What is merged lies above everything that is merged into it. -/
theorem le_joinAll (hf : f ∈ fs) : f.get ≤ (joinAll fs).get :=
  joinAll_le_iff.mp le_rfl f hf

/-- Whatever lies above the same functions has the same merged environments below it. -/
theorem same_joinAll (h : ∀ m : Var → Value, (∀ f ∈ fs, f.get ≤ m) ↔ ∀ g ∈ gs, g.get ≤ m) :
    (joinAll fs).same (joinAll gs) = true := by
  refine same_iff.mpr (eq_of_forall_ge_iff fun m => ?_)
  rw [joinAll_le_iff, joinAll_le_iff]
  exact h m

/-- The merged value of a variable is the least one above its values. -/
theorem isLUB_get_joinAll (fs : List Env) (x : Var) :
    IsLUB {v | ∃ f ∈ fs, f.get x = v} ((joinAll fs).get x) := by
  constructor
  · rintro _ ⟨f, hf, rfl⟩
    exact le_joinAll hf x
  · intro v hv
    -- the function that is `v` at this variable lies above all of them, if it is `nac` elsewhere
    have habove : (joinAll fs).get ≤ fun y => if y = x then v else .nac := by
      refine joinAll_le_iff.mpr fun f hf y => ?_
      change f.get y ≤ if y = x then v else .nac
      split
      · rename_i hy
        exact hv ⟨f, hf, by rw [hy]⟩
      · exact Value.le_nac _
    simpa using habove x

end Env

namespace Memory

open Env (joinAll)

variable {m : Memory} {fs gs : List Env} {is : List Nat}

theorem steps_joinInto (h : List.Forall₂ (fun i g => fs[i]? = some g) is gs) (e : Env) :
    Steps Replaces (fs ++ [e]) (is.map (.joinInto · fs.length)) (is.map fun _ => .done)
      (fs ++ [gs.foldl Env.joinWith e]) := by
  induction h generalizing e with
  | nil => exact .nil
  | @cons i g is gs hi _ ih =>
      have hfirst : (fs ++ [e])[i]? = some g := by
        rw [List.getElem?_append_left (List.getElem?_eq_some_iff.mp hi).1, hi]
      have hstep := Replaces.joinInto hfirst (List.getElem?_concat_length (l := fs) (a := e))
      rw [List.set_append_right _ _ (Nat.le_refl _), Nat.sub_self, List.set_cons_zero] at hstep
      exact .cons hstep (ih (e.joinWith g))

/-- Joining objects into a fresh one makes it hold their environments merged, and leaves them as they
are. -/
theorem Represents.ensures_joinAll (hm : Represents m fs)
    (h : List.Forall₂ (fun i g => fs[i]? = some g) is gs) :
    Ensures (performAll (.new [] :: is.map (.joinInto · fs.length))) m fun _ m' =>
      Represents m' (fs ++ [joinAll gs]) :=
  (hm.ensures_performAll (.cons (.new []) (steps_joinInto h .empty))).imp fun _ _ hdone => hdone.2

end Memory

/-- What the order and the join of values promise, and what follows for environments that are merged. -/
structure Env.MergesLeast : Prop where
  /-- The comparison of values is a partial order. -/
  isPartialOrder : IsPartialOrder Value fun a b => a.le b = true
  /-- The join of two values is the least value above both. -/
  isLeast_join (a b : Value) :
    a.le (a.join b) = true ∧ b.le (a.join b) = true ∧
      ∀ c : Value, a.le c = true → b.le c = true → (a.join b).le c = true
  join_comm (a b : Value) : a.join b = b.join a
  join_assoc (a b c : Value) : (a.join b).join c = a.join (b.join c)
  join_idem (a : Value) : a.join a = a
  /-- Merged environments give each variable the least value above its values in the list. -/
  isLUB_get (fs : List Env) (x : Var) : IsLUB {v | ∃ f ∈ fs, f.get x = v} ((joinAll fs).get x)
  /-- The order does not matter. -/
  same_of_perm {fs gs : List Env} : fs.Perm gs → (joinAll fs).same (joinAll gs) = true
  /-- It does not matter how often an environment comes. -/
  same_of_mem_iff {fs gs : List Env} : (∀ f, f ∈ fs ↔ f ∈ gs) → (joinAll fs).same (joinAll gs) = true
  /-- Parts that make up a list in whatever way can be merged by themselves. -/
  same_of_parts {fs : List Env} {parts : List (List Env)} : (∀ f, f ∈ fs ↔ ∃ part ∈ parts, f ∈ part) →
    (joinAll (parts.map joinAll)).same (joinAll fs) = true
  /-- Objects that are joined in place into a fresh one are merged in it, and are what they were. -/
  objects {m : Memory} {fs gs : List Env} {is : List Nat} : m.Represents fs →
    List.Forall₂ (fun i g => fs[i]? = some g) is gs →
    ∃ answers m', (Memory.performAll (.new [] :: is.map (.joinInto · fs.length))).run m =
      .ok (answers, m') ∧ m'.Represents (fs ++ [joinAll gs])

/-- **Merging gives the least upper bound, however the environments are listed.** -/
theorem Env.mergesLeast : MergesLeast where
  isPartialOrder := inferInstanceAs (IsPartialOrder Value (· ≤ ·))
  isLeast_join a b := ⟨le_sup_left (a := a) (b := b), le_sup_right (a := a) (b := b),
    fun _ hac hbc => sup_le (α := Value) hac hbc⟩
  join_comm := sup_comm (α := Value)
  join_assoc := sup_assoc (α := Value)
  join_idem := sup_idem (α := Value)
  isLUB_get := isLUB_get_joinAll
  same_of_perm h := same_joinAll fun m => by simp only [h.mem_iff]
  same_of_mem_iff h := same_joinAll fun m => by simp only [h]
  same_of_parts h := same_joinAll fun m => by
    -- a bound of the merged parts is a bound of what each of them was merged from
    simp only [List.forall_mem_map, joinAll_le_iff, h]
    exact ⟨fun h f ⟨part, hpart, hf⟩ => h part hpart f hf, fun h part hpart f hf => h f ⟨part, hpart, hf⟩⟩
  objects hm h := hm.ensures_joinAll h

end TacFlow
