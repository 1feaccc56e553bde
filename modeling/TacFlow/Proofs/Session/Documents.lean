import TacFlow.Session.Plan
import TacFlow.Proofs.Limits

/-!
# Documents under limits

The reader of a document goes down a level with every array and object. With fewer levels it either comes to
the last one, and refuses, or it reads the same value. A plan is read likewise.
-/

namespace TacFlow

namespace Json

/-- The errors of the reader that refuse what is nested too deep. -/
def ReadError.IsTooDeep (e : ReadError) : Prop :=
  e = .tooDeep

namespace Reader

variable {α : Type} {d : Nesting → Nat}

/-- Goes one level down, if there is one left. -/
def descend (next : Nat → Except ReadError α) : Nat → Except ReadError α
  | 0 => .error .tooDeep
  | depth + 1 => next depth

/-- What is left of the levels under higher limits is at least as much. -/
def Grows (d : Nesting → Nat) : Prop :=
  ∀ ⦃N N' : Nesting⦄, N.Below N' → d N ≤ d N'

theorem Grows.pred (hd : Grows d) : Grows fun N => d N - 1 :=
  fun _ _ hN => Nat.sub_le_sub_right (hd hN) 1

theorem Grows.limited_descend (hd : Grows d) {next : Nat → Except ReadError α}
    (hnext : Limited (Refused ReadError.IsTooDeep) fun N => next (d N - 1)) :
    Limited (Refused ReadError.IsTooDeep) fun N => descend next (d N) := by
  intro N N' hN
  dsimp only
  cases hdepth : d N with
  | zero => exact Or.inl rfl
  | succ depth =>
      obtain ⟨depth', hdepth'⟩ := Nat.exists_eq_succ_of_ne_zero (n := d N') (by have := hd hN; omega)
      have h := hnext hN
      dsimp only at h
      rw [hdepth, hdepth'] at h
      rw [hdepth']
      exact h

theorem value_array (depth fuel : Nat) (rest : List Char) :
    value depth (fuel + 1) ('[' :: rest) = descend (fun depth => match skip rest with
      | ']' :: r => .ok (.arr [], r)
      | r => do
        let (vs, r) ← items depth fuel [] r
        return (.arr vs, r)) depth := by
  cases depth with
  | zero => rfl
  | succ depth =>
      dsimp only [descend]
      split
      · rename_i r hskip
        rw [value]
        exact hskip
      · rename_i hskip
        simp only [value]

theorem value_object (depth fuel : Nat) (rest : List Char) :
    value depth (fuel + 1) ('{' :: rest) = descend (fun depth => match skip rest with
      | '}' :: r => .ok (.obj [], r)
      | r => do
        let (ms, r) ← members depth fuel [] r
        return (.obj ms, r)) depth := by
  cases depth with
  | zero => rfl
  | succ depth =>
      dsimp only [descend]
      split
      · rename_i r hskip
        rw [value]
        exact hskip
      · rename_i hskip
        simp only [value]

/-- With some fuel, every part of the reader only refuses more under lower limits. -/
structure LimitedAt (fuel : Nat) : Prop where
  value : ∀ {d}, Grows d → ∀ cs, Limited (Refused ReadError.IsTooDeep) fun N => value (d N) fuel cs
  items : ∀ {d}, Grows d → ∀ done cs,
    Limited (Refused ReadError.IsTooDeep) fun N => items (d N) fuel done cs
  members : ∀ {d}, Grows d → ∀ done cs,
    Limited (Refused ReadError.IsTooDeep) fun N => members (d N) fuel done cs

variable {fuel : Nat}

theorem LimitedAt.value_succ (h : LimitedAt fuel) (hd : Grows d) (cs : List Char) :
    Limited (Refused ReadError.IsTooDeep) fun N => Reader.value (d N) (fuel + 1) cs := by
  rcases cs with _ | ⟨c, rest⟩
  · exact limited_const (scalar [])
  by_cases hquote : c = '"'
  · subst hquote
    exact (limited_const (string [] rest)).bind fun _ => limited_const _
  by_cases harray : c = '['
  · subst harray
    simp only [value_array]
    refine hd.limited_descend ?_
    split
    · exact limited_const _
    · exact (h.items hd.pred [] _).bind fun _ => limited_const _
  by_cases hobject : c = '{'
  · subst hobject
    simp only [value_object]
    refine hd.limited_descend ?_
    split
    · exact limited_const _
    · exact (h.members hd.pred [] _).bind fun _ => limited_const _
  · have hscalar : ∀ depth, Reader.value depth (fuel + 1) (c :: rest) = scalar (c :: rest) := by
      intro depth
      rw [Reader.value]
      all_goals simp_all
    simp only [hscalar]
    exact limited_const _

theorem LimitedAt.items_succ (h : LimitedAt fuel) (hd : Grows d) (done : List Json) (cs : List Char) :
    Limited (Refused ReadError.IsTooDeep) fun N => Reader.items (d N) (fuel + 1) done cs := by
  simp only [Reader.items]
  refine (h.value hd cs).bind fun (v, rest) => ?_
  dsimp only
  split
  · exact h.items hd _ _
  · exact limited_const _
  · exact limited_const _

theorem LimitedAt.members_succ (h : LimitedAt fuel) (hd : Grows d) (done : List (Str × Json))
    (cs : List Char) :
    Limited (Refused ReadError.IsTooDeep) fun N => Reader.members (d N) (fuel + 1) done cs := by
  rcases cs with _ | ⟨c, rest⟩
  · exact limited_const _
  by_cases hquote : c = '"'
  · subst hquote
    simp only [Reader.members]
    refine (limited_const (string [] rest)).bind fun (name, rest) => ?_
    dsimp only
    split
    · refine (h.value hd _).bind fun (v, rest) => ?_
      dsimp only
      split
      · exact h.members hd _ _
      · exact limited_const _
      · exact limited_const _
    · exact limited_const _
  · have hmalformed : ∀ depth, Reader.members depth (fuel + 1) done (c :: rest) = .error .malformed := by
      intro depth
      rw [Reader.members]
      all_goals simp_all
    simp only [hmalformed]
    exact limited_const _

theorem limitedAt (fuel : Nat) : LimitedAt fuel := by
  induction fuel with
  | zero => exact ⟨fun _ _ => limited_const _, fun _ _ _ => limited_const _, fun _ _ _ => limited_const _⟩
  | succ fuel ih => exact ⟨ih.value_succ, ih.items_succ, ih.members_succ⟩

end Reader

theorem limited_parse (text : String) : Limited (Refused ReadError.IsTooDeep) fun _ => parse text :=
  ((Reader.limitedAt _).value (fun _ _ hN => hN.decodable) _).bind fun _ => limited_const _

end Json

/-! ## Plans -/

/-- The errors on a plan that refuse what is nested too deep. -/
def PlanError.IsTooDeep : PlanError → Prop
  | .unread _ e => e.IsTooDeep
  | _ => False

theorem Plan.limited_ofText (path text : String) :
    Limited (Refused PlanError.IsTooDeep) fun _ => Plan.ofText path text := by
  intro N N' hN
  unfold ofText
  rcases (Json.limited_parse text).cases hN with ⟨e, he, rfl⟩ | heq
  · dsimp only at he ⊢
    rw [he]
    exact Or.inl rfl
  · dsimp only at heq ⊢
    rw [← heq]
    exact Or.inr rfl

end TacFlow
