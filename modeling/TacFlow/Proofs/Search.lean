import Mathlib.Logic.Relation
import TacFlow.Search

/-!
# What a search finds

`Finds` is the search without a limit: it goes on for as long as something waits in the queue. What
it ends with is read off that relation. It lists every element once, and it holds exactly what can
be reached from the start.

A limited search makes the same steps, and with enough fuel it comes to the end of them. The fuel
suffices because every element is expanded once at most, so what is waiting and what is still to be
put in the queue shrink together.
-/

namespace TacFlow.Search

open Relation (ReflTransGen)

variable {α : Type} {next : α → List α} {scope start queue seen found : List α} {x y : α}

/-- The search without a limit, from a queue and what has been seen to what is found. -/
inductive Finds (next : α → List α) : List α → List α → List α → Prop where
  | done (seen : List α) : Finds next [] seen seen
  | skip {x : α} {queue seen found : List α} :
      x ∈ seen → Finds next queue seen found → Finds next (x :: queue) seen found
  | expand {x : α} {queue seen found : List α} :
      x ∉ seen → Finds next (queue ++ next x) (seen ++ [x]) found →
        Finds next (x :: queue) seen found

/-- An element is put in the queue by another one. -/
def Follows (next : α → List α) (x y : α) : Prop :=
  y ∈ next x

/-- What follows an element that has been seen has been seen too, or waits in the queue. -/
def Covers (next : α → List α) (queue seen : List α) : Prop :=
  ∀ x ∈ seen, ∀ y ∈ next x, y ∈ seen ∨ y ∈ queue

/-! ## What is found -/

theorem covers_skip (hx : x ∈ seen) (h : Covers next (x :: queue) seen) :
    Covers next queue seen := by
  intro z hz y hy
  rcases h z hz y hy with hs | hq
  · exact Or.inl hs
  · rcases List.mem_cons.mp hq with rfl | hq
    · exact Or.inl hx
    · exact Or.inr hq

theorem covers_expand (h : Covers next (x :: queue) seen) :
    Covers next (queue ++ next x) (seen ++ [x]) := by
  intro z hz y hy
  rcases List.mem_append.mp hz with hz | hz
  · rcases h z hz y hy with hs | hq
    · exact Or.inl (List.mem_append_left _ hs)
    · rcases List.mem_cons.mp hq with rfl | hq
      · exact Or.inl (by simp)
      · exact Or.inr (List.mem_append_left _ hq)
  · rw [List.mem_singleton.mp hz] at hy
    exact Or.inr (List.mem_append_right _ hy)

theorem Finds.mem_found (h : Finds next queue seen found) (hx : x ∈ seen ∨ x ∈ queue) :
    x ∈ found := by
  induction h with
  | done seen => exact hx.resolve_right (by simp)
  | @skip z queue seen found hz _ ih =>
      refine ih ?_
      rcases hx with hx | hx
      · exact Or.inl hx
      · rcases List.mem_cons.mp hx with rfl | hx
        · exact Or.inl hz
        · exact Or.inr hx
  | @expand z queue seen found _ _ ih =>
      refine ih ?_
      rcases hx with hx | hx
      · exact Or.inl (List.mem_append_left _ hx)
      · rcases List.mem_cons.mp hx with rfl | hx
        · exact Or.inl (by simp)
        · exact Or.inr (List.mem_append_left _ hx)

/-- What is found is closed. -/
theorem Finds.closed (h : Finds next queue seen found) (hcov : Covers next queue seen) :
    ∀ x ∈ found, ∀ y ∈ next x, y ∈ found := by
  induction h with
  | done seen => exact fun x hx y hy => (hcov x hx y hy).resolve_right (by simp)
  | skip hx _ ih => exact ih (covers_skip hx hcov)
  | expand _ _ ih => exact ih (covers_expand hcov)

/-- Nothing is listed twice. -/
theorem Finds.nodup (h : Finds next queue seen found) (hseen : seen.Nodup) : found.Nodup := by
  induction h with
  | done seen => exact hseen
  | skip _ _ ih => exact ih hseen
  | @expand x queue seen found hx _ ih =>
      refine ih ?_
      rw [List.nodup_append]
      refine ⟨hseen, by simp, ?_⟩
      intro y hy z hz hyz
      rw [List.mem_singleton.mp hz] at hyz
      exact hx (hyz ▸ hy)

/-- Nothing is found that does not come from the queue. -/
theorem Finds.mem_or_reached (h : Finds next queue seen found) (hx : x ∈ found) :
    x ∈ seen ∨ ∃ z ∈ queue, ReflTransGen (Follows next) z x := by
  induction h with
  | done seen => exact Or.inl hx
  | @skip y queue seen found _ _ ih =>
      rcases ih hx with hs | ⟨z, hz, hzx⟩
      · exact Or.inl hs
      · exact Or.inr ⟨z, List.mem_cons_of_mem y hz, hzx⟩
  | @expand y queue seen found _ _ ih =>
      rcases ih hx with hs | ⟨z, hz, hzx⟩
      · rcases List.mem_append.mp hs with hs | hs
        · exact Or.inl hs
        · rw [List.mem_singleton.mp hs]
          exact Or.inr ⟨y, by simp, .refl⟩
      · rcases List.mem_append.mp hz with hz | hz
        · exact Or.inr ⟨z, List.mem_cons_of_mem y hz, hzx⟩
        · exact Or.inr ⟨y, by simp, .head hz hzx⟩

/-- **A search finds exactly what can be reached from its start.** -/
theorem Finds.mem_iff (h : Finds next start [] found) :
    x ∈ found ↔ ∃ z ∈ start, ReflTransGen (Follows next) z x := by
  constructor
  · exact fun hx => (h.mem_or_reached hx).resolve_left (by simp)
  · rintro ⟨z, hz, hzx⟩
    induction hzx with
    | refl => exact h.mem_found (Or.inr hz)
    | tail _ hy ih => exact h.closed (fun x hx => absurd hx (by simp)) _ ih _ hy

/-! ## Fuel -/

/-- Whatever can be reached and puts something in the queue lies within the scope. -/
def Bounds (scope : List α) (next : α → List α) (start : List α) : Prop :=
  ∀ z ∈ start, ∀ x, ReflTransGen (Follows next) z x → next x ≠ [] → x ∈ scope

theorem bounds_expand (h : Bounds scope next (x :: queue)) :
    Bounds scope next (queue ++ next x) := by
  intro z hz y hzy
  rcases List.mem_append.mp hz with hz | hz
  · exact h z (List.mem_cons_of_mem x hz) y hzy
  · exact h x (by simp) y (.head hz hzy)

/-- Nothing leads out of a scope that is closed. -/
theorem bounds_of_closed (hscope : ∀ x ∈ scope, ∀ y ∈ next x, y ∈ scope)
    (hstart : ∀ x ∈ start, x ∈ scope) : Bounds scope next start := by
  intro z hz x hzx hne
  clear hne
  induction hzx with
  | refl => exact hstart z hz
  | tail _ hy ih => exact hscope _ ih _ hy

variable [DecidableEq α]

/-- What an element may still put in the queue. -/
def unseen (next : α → List α) (seen : List α) (x : α) : List α :=
  if x ∈ seen then [] else next x

/-- How many elements may still be put in the queue. -/
def pending (scope : List α) (next : α → List α) (seen : List α) : Nat :=
  (scope.flatMap (unseen next seen)).length

theorem pending_nil : pending scope next [] = (scope.flatMap next).length := by
  have hunseen : unseen next [] = next := by
    funext x
    simp [unseen]
  rw [pending, hunseen]

theorem pending_cons (y : α) :
    pending (y :: scope) next seen = (unseen next seen y).length + pending scope next seen := by
  rw [pending, List.flatMap_cons, List.length_append]
  rfl

theorem length_unseen_append_le (x y : α) :
    (unseen next (seen ++ [x]) y).length ≤ (unseen next seen y).length := by
  unfold unseen
  by_cases hy : y ∈ seen
  · simp [hy]
  · simp only [hy, if_false]
    split
    · exact Nat.zero_le _
    · exact Nat.le_refl _

theorem pending_append_le (x : α) : pending scope next (seen ++ [x]) ≤ pending scope next seen := by
  induction scope with
  | nil => exact Nat.le_refl _
  | cons y scope ih =>
      rw [pending_cons, pending_cons]
      exact Nat.add_le_add (length_unseen_append_le x y) ih

/-- An element that is expanded now will not be expanded again. -/
theorem pending_add_le (hx : x ∈ scope) (hs : x ∉ seen) :
    pending scope next (seen ++ [x]) + (next x).length ≤ pending scope next seen := by
  induction scope with
  | nil => exact absurd hx (by simp)
  | cons y scope ih =>
      rw [pending_cons, pending_cons]
      have hle := @length_unseen_append_le _ next seen _ x y
      rcases List.mem_cons.mp hx with rfl | hx
      · have h₁ : unseen next (seen ++ [x]) x = [] := by simp [unseen]
        have h₂ : unseen next seen x = next x := by simp [unseen, hs]
        have := @pending_append_le _ next scope seen _ x
        rw [h₁, h₂, List.length_nil]
        omega
      · have := ih hx
        omega

/-- **With enough fuel a search ends with an empty queue.** -/
theorem finds_run {fuel : Nat} (hfuel : queue.length + pending scope next seen < fuel)
    (hbound : Bounds scope next queue) : Finds next queue seen (run next fuel queue seen) := by
  induction fuel generalizing queue seen with
  | zero => omega
  | succ fuel ih =>
      cases queue with
      | nil => exact .done seen
      | cons x queue =>
          rw [run]
          split
          · -- seen before: the queue gets shorter
            rename_i hseen
            refine .skip hseen (ih ?_ fun z hz => hbound z (List.mem_cons_of_mem x hz))
            simp only [List.length_cons] at hfuel
            omega
          · -- new: what it puts in the queue is no longer pending
            rename_i hseen
            refine .expand hseen (ih ?_ (bounds_expand hbound))
            simp only [List.length_cons] at hfuel
            rw [List.length_append]
            by_cases hnext : next x = []
            · have := @pending_append_le _ next scope seen _ x
              rw [hnext, List.length_nil]
              omega
            · have := @pending_add_le _ next scope seen x _ (hbound x (by simp) x .refl hnext) hseen
              omega

/-- **A search comes to its end within the fuel that it is given.** -/
theorem finds_reach (hbound : Bounds scope next start) :
    Finds next start [] (reach scope next start) := by
  refine finds_run ?_ hbound
  rw [pending_nil]
  exact Nat.lt_succ_self _

section

variable (hscope : ∀ x ∈ scope, ∀ y ∈ next x, y ∈ scope) (hstart : ∀ x ∈ start, x ∈ scope)

include hscope hstart

/-- A search finds where it starts. -/
theorem mem_reach_of_mem_start (hx : x ∈ start) : x ∈ reach scope next start :=
  (finds_reach (bounds_of_closed hscope hstart)).mem_iff.mpr ⟨x, hx, .refl⟩

/-- **A search finds whatever follows what it finds.** -/
theorem mem_reach_of_mem_next (hx : x ∈ reach scope next start) (hy : y ∈ next x) :
    y ∈ reach scope next start := by
  have hfinds := finds_reach (bounds_of_closed hscope hstart)
  obtain ⟨z, hz, hzx⟩ := hfinds.mem_iff.mp hx
  exact hfinds.mem_iff.mpr ⟨z, hz, hzx.tail hy⟩

end

end TacFlow.Search
