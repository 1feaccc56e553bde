import Mathlib.Data.List.Basic
import TacFlow.Index

/-!
# What indexes give back

What is filed under a key is what was filed there one by one, so an index into a growing list gives back the
elements of the list with that key, in the order of the list.
-/

namespace TacFlow

namespace Index

variable {κ α : Type} [DecidableEq κ] {ix : Index κ α} {key k : κ} {a : α} {as : List α}

theorem file_apply : ix.file key a k = ix k ++ if k = key then [a] else [] := by
  unfold file
  split <;> simp

/-- A value is filed once for each mention of the key. -/
theorem fileUnder_apply {keys : List κ} :
    ix.fileUnder keys a k = ix k ++ (keys.filter (· == k)).map fun _ => a := by
  induction keys generalizing ix with
  | nil => simp [fileUnder]
  | cons key keys ih =>
      have hstep : ix.fileUnder (key :: keys) a = (ix.file key a).fileUnder keys a := rfl
      rw [hstep, ih, file_apply, List.append_assoc]
      by_cases hk : k = key
      · simp [hk]
      · simp [hk, Ne.symm hk]

/-- Values that are filed once are the first mentions of what was given. -/
theorem fileOnce_apply [DecidableEq α] (h : ix k = as.eraseDups) :
    ix.fileOnce key a k = (as ++ if k = key then [a] else []).eraseDups := by
  by_cases hk : k = key
  · subst hk
    rw [if_pos rfl, List.eraseDups_append, fileOnce]
    by_cases ha : a ∈ as
    · simp [h, List.removeAll, ha]
    · simp [file_apply, h, List.removeAll, List.eraseDups_cons, ha]
  · rw [if_neg hk, List.append_nil, ← h, fileOnce]
    split
    · rfl
    · simp [file_apply, hk]

end Index

namespace EdgeIndex

variable {ν ε : Type} [DecidableEq ν] {source target : ε → ν} {ix : EdgeIndex ν ε} {es : List ε}

/-- What is filed under a node are the edges of a list that leave it and those that enter it. -/
structure Files (source target : ε → ν) (ix : EdgeIndex ν ε) (es : List ε) : Prop where
  outEdges (n : ν) : ix.outEdges n = es.filter (source · = n)
  inEdges (n : ν) : ix.inEdges n = es.filter (target · = n)

theorem files_empty : Files source target empty [] :=
  ⟨fun _ => rfl, fun _ => rfl⟩

/-- **What is filed is kept up to date as the list grows.** -/
theorem Files.add (h : Files source target ix es) (e : ε) :
    Files source target (ix.add (source e) (target e) e) (es ++ [e]) where
  outEdges n := by
    simp [EdgeIndex.add, Index.file_apply, h.outEdges, List.filter_append, List.filter_cons, eq_comm]
  inEdges n := by
    simp [EdgeIndex.add, Index.file_apply, h.inEdges, List.filter_append, List.filter_cons, eq_comm]

/-- Files edges one by one. -/
def addAll (source target : ε → ν) (ix : EdgeIndex ν ε) (es : List ε) : EdgeIndex ν ε :=
  es.foldl (fun ix e => ix.add (source e) (target e) e) ix

theorem Files.addAll (h : Files source target ix es) (new : List ε) :
    Files source target (ix.addAll source target new) (es ++ new) := by
  induction new generalizing ix es with
  | nil => simpa [EdgeIndex.addAll] using h
  | cons e new ih => simpa [EdgeIndex.addAll] using ih (h.add e)

end EdgeIndex

end TacFlow
