import TacFlow.Nesting

/-!
# Limits only refuse

Under lower limits of nesting less can be asked for, but no answer is another one: what is asked for is
either refused or answered just as under higher limits. `Limited` says so of anything that depends on limits.
It is passed on from what is asked first to what is made of the answer, so that every operation has it that
is put together of such ones.
-/

namespace TacFlow

/-- Every limit is at most another one. -/
structure Nesting.Below (N N' : Nesting) : Prop where
  readable : N.readable ≤ N'.readable
  searchable : N.searchable ≤ N'.searchable
  comparable : N.comparable ≤ N'.comparable
  writable : N.writable ≤ N'.writable
  decodable : N.decodable ≤ N'.decodable

/-- Under some limits an answer is a refusal, or it is the one under higher limits. -/
def Limited {α : Type} (refused : α → Prop) (x : Nesting → α) : Prop :=
  ∀ ⦃N N' : Nesting⦄, N.Below N' → refused (x N) ∨ x N = x N'

section

variable {α β : Type} {R : α → Prop} {S : β → Prop} {x : Nesting → α}

theorem limited_const (a : α) : Limited R fun _ => a :=
  fun _ _ _ => Or.inr rfl

/-- What is made of an answer is limited as the answer is if a refusal makes a refusal. -/
theorem Limited.andThen {k : Nesting → α → β} (hx : Limited R x) (hrefused : ∀ N a, R a → S (k N a))
    (hk : ∀ a, Limited S (k · a)) : Limited S fun N => k N (x N) := by
  intro N N' hN
  rcases hx hN with hR | heq
  · exact Or.inl (hrefused N _ hR)
  · have hafter := hk (x N) hN
    dsimp only at hafter ⊢
    rwa [← heq]

end

/-! ## What is within limits -/

/-- What is within some limits is within higher ones. -/
def Kept (p : Nesting → Bool) : Prop :=
  ∀ ⦃N N' : Nesting⦄, N.Below N' → p N = true → p N' = true

section

variable {α β : Type} {p q : Nesting → Bool} {S : β → Prop} {x y : Nesting → β}

theorem kept_const (b : Bool) : Kept fun _ => b :=
  fun _ _ _ h => h

theorem Kept.and (hp : Kept p) (hq : Kept q) : Kept fun N => p N && q N := by
  intro N N' hN h
  rw [Bool.and_eq_true] at h ⊢
  exact ⟨hp hN h.1, hq hN h.2⟩

theorem Kept.or (hp : Kept p) (hq : Kept q) : Kept fun N => p N || q N := by
  intro N N' hN h
  rw [Bool.or_eq_true] at h ⊢
  exact h.imp (hp hN) (hq hN)

theorem kept_all {p : Nesting → α → Bool} (hp : ∀ a, Kept fun N => p N a) (as : List α) :
    Kept fun N => as.all (p N) := by
  intro N N' hN h
  rw [List.all_eq_true] at h ⊢
  exact fun a ha => hp a hN (h a ha)

theorem kept_option {p : Nesting → α → Bool} (hp : ∀ a, Kept fun N => p N a) (o : Option α) :
    Kept fun N => o.all (p N) := by
  cases o with
  | none => exact kept_const true
  | some a => exact hp a

theorem Kept.limited (hp : Kept p) : Limited (· = false) p := by
  intro N N' hN
  cases hN' : p N with
  | false => exact Or.inl rfl
  | true => exact Or.inr (hp hN hN').symm

/-- What a check lets through is limited if whatever else comes is a refusal. -/
theorem Kept.guard (hp : Kept p) (hx : Limited S x) (hy : ∀ N, S (y N)) :
    Limited S fun N => if p N then x N else y N := by
  refine hp.limited.andThen (k := fun N b => if b then x N else y N) (fun N b hb => ?_) fun b => ?_
  · subst hb
    exact hy N
  · cases b with
    | true => exact hx
    | false => exact fun N _ _ => Or.inl (hy N)

theorem Kept.guard_not (hp : Kept p) (hx : Limited S x) (hy : ∀ N, S (y N)) :
    Limited S fun N => if !p N then y N else x N := by
  have hswap : (fun N => if !p N then y N else x N) = fun N => if p N then x N else y N := by
    funext N
    cases p N <;> rfl
  rw [hswap]
  exact hp.guard hx hy

end

/-! ## Computations that can fail -/

/-- A computation fails for one of some reasons. -/
def Refused {ε α : Type} (P : ε → Prop) : Except ε α → Prop
  | .error e => P e
  | .ok _ => False

section

variable {ε α β : Type} {P : ε → Prop} {x : Nesting → Except ε α}

theorem Limited.cases (hx : Limited (Refused P) x) {N N' : Nesting} (hN : N.Below N') :
    (∃ e, x N = .error e ∧ P e) ∨ x N = x N' := by
  refine (hx hN).imp_left fun hr => ?_
  generalize x N = r at hr ⊢
  cases r with
  | error e => exact ⟨e, rfl, hr⟩
  | ok a => exact hr.elim

theorem Limited.bind {k : Nesting → α → Except ε β} (hx : Limited (Refused P) x)
    (hk : ∀ a, Limited (Refused P) (k · a)) : Limited (Refused P) fun N => x N >>= k N := by
  refine Limited.andThen (k := fun N r => r >>= k N) hx (fun N r hr => ?_) fun r => ?_
  · cases r with
    | error e => exact hr
    | ok a => exact hr.elim
  · cases r with
    | error e => exact limited_const _
    | ok a => exact hk a

theorem limited_foldlM {f : Nesting → β → α → Except ε β} (hf : ∀ b a, Limited (Refused P) (f · b a))
    (as : List α) (b : β) : Limited (Refused P) fun N => as.foldlM (f N) b := by
  induction as generalizing b with
  | nil => exact limited_const _
  | cons a as ih => exact (hf b a).bind ih

theorem Limited.map {S : β → Prop} {k : Except ε α → β} (hx : Limited (Refused P) x)
    (hk : ∀ e, P e → S (k (.error e))) : Limited S fun N => k (x N) := by
  refine hx.andThen (k := fun _ => k) (fun _ r hr => ?_) fun _ => limited_const _
  cases r with
  | error e => exact hk e hr
  | ok a => exact hr.elim

end

end TacFlow
