import Mathlib.Order.BoundedOrder.Lattice
import TacFlow.Constant.Eval

/-!
# The order of constants

`Value` is a flat lattice: the constants lie side by side between `unassigned` and `nac`. Its
comparison and its join are those of a join-semilattice with a least element, so the order theory of
the library speaks about them, and about environments variable by variable.

Evaluation respects the order with a single exception. A division by a known zero gives
`unassigned`, whatever the dividend, while a division by something unassigned gives `nac` if the
dividend is `nac`. So a quotient can fall when its divisor rises: `Hazard` is that case.
-/

namespace TacFlow.Value

instance : LE Value where
  le a b := a.le b = true

theorem le_iff {a b : Value} : a ≤ b ↔ a = .unassigned ∨ b = .nac ∨ a = b := by
  change a.le b = true ↔ _
  cases a with
  | unassigned => simp [le]
  | const m => cases b <;> simp [le]
  | nac => cases b <;> simp [le]

theorem eq_of_nac_le {a : Value} (h : nac ≤ a) : a = nac := by
  cases a <;> simp_all [le_iff]

theorem eq_of_le_unassigned {a : Value} (h : a ≤ unassigned) : a = unassigned := by
  cases a <;> simp_all [le_iff]

instance : PartialOrder Value where
  le_refl a := by simp [le_iff]
  le_trans a b c hab hbc := by
    rcases le_iff.mp hab with rfl | rfl | rfl
    · simp [le_iff]
    · rw [eq_of_nac_le hbc]; simp [le_iff]
    · exact hbc
  le_antisymm a b hab hba := by
    rcases le_iff.mp hab with rfl | rfl | rfl
    · exact (eq_of_le_unassigned hba).symm
    · exact eq_of_nac_le hba
    · rfl

instance : OrderBot Value where
  bot := unassigned
  bot_le a := by simp [le_iff]

instance : SemilatticeSup Value where
  sup := join
  le_sup_left a b := by
    cases a <;> cases b <;> simp only [le_iff, join] <;> grind
  le_sup_right a b := by
    cases a <;> cases b <;> simp only [le_iff, join] <;> grind
  sup_le a b c hac hbc := by
    cases a <;> cases b <;> simp only [le_iff, join] at hac hbc ⊢ <;> grind

theorem join_eq_sup (a b : Value) : a.join b = a ⊔ b := rfl

theorem unassigned_le (a : Value) : unassigned ≤ a := bot_le

theorem le_nac (a : Value) : a ≤ nac := by simp [le_iff]

/-- How high a value lies. -/
def rank : Value → Nat
  | unassigned => 0
  | const _ => 1
  | nac => 2

theorem rank_le_two (a : Value) : a.rank ≤ 2 := by
  cases a <;> simp [rank]

theorem rank_lt_of_lt {a b : Value} (h : a < b) : a.rank < b.rank := by
  obtain ⟨hle, hne⟩ := lt_iff_le_and_ne.mp h
  rcases le_iff.mp hle with rfl | rfl | rfl
  · cases b <;> simp_all [rank]
  · cases a <;> simp_all [rank]
  · exact absurd rfl hne

/-- The step at which a quotient falls: the dividend is no constant, and the divisor rises from
`unassigned` to the constant zero. -/
def Hazard (op : BinOp) (left right right' : Value) : Prop :=
  op.isDivision = true ∧ left = nac ∧ right = unassigned ∧ right' = const 0

theorem combine_zero {op : BinOp} (h : op.isDivision = true) (a : Value) :
    combine op a (const 0) = unassigned := by
  simp [combine, h]

theorem combine_nac_left {op : BinOp} {b : Value} (h : ¬ (op.isDivision = true ∧ b = const 0)) :
    combine op nac b = nac := by
  simp [combine, h]

@[simp] theorem combine_nac_right (op : BinOp) (a : Value) : combine op a nac = nac := by
  cases a <;> simp [combine]

theorem combine_const {op : BinOp} {m n : Int} (h : ¬ (op.isDivision = true ∧ const n = const 0)) :
    combine op (const m) (const n) = const (wrap32 (op.apply m n)) := by
  unfold combine
  rw [if_neg h]

/-- Only constants combine to a constant. -/
theorem combine_eq_const {op : BinOp} {a b : Value} {r : Int} (h : combine op a b = const r) :
    ∃ m n, a = const m ∧ b = const n ∧ ¬ (op.isDivision = true ∧ const n = const 0) ∧
      r = wrap32 (op.apply m n) := by
  by_cases hzero : op.isDivision = true ∧ b = const 0
  · rw [hzero.2, combine_zero hzero.1] at h
    exact absurd h (by simp)
  · cases a with
    | nac => rw [combine_nac_left hzero] at h; exact absurd h (by simp)
    | unassigned => cases b <;> simp [combine] at h
    | const m =>
        cases b with
        | nac => simp at h
        | unassigned => simp [combine] at h
        | const n =>
            rw [combine_const hzero] at h
            exact ⟨m, n, rfl, rfl, hzero, (const.inj h).symm⟩

theorem combine_unassigned_left {op : BinOp} {b : Value} (h : b ≠ nac) :
    combine op unassigned b = unassigned := by
  cases b <;> simp_all [combine]

theorem combine_unassigned_right {op : BinOp} {a : Value} (h : a ≠ nac) :
    combine op a unassigned = unassigned := by
  cases a <;> simp_all [combine]

/-- **Evaluation respects the order**, but for a quotient whose divisor turns into zero. -/
theorem combine_mono {op : BinOp} {a a' b b' : Value} (ha : a ≤ a') (hb : b ≤ b')
    (h : ¬ Hazard op a b b') : combine op a b ≤ combine op a' b' := by
  rcases le_iff.mp hb with rfl | rfl | rfl
  · -- the second operand rises from `unassigned`, which matters if the first is `nac`
    by_cases hnac : a = nac
    · subst hnac
      have hsafe : ¬ (op.isDivision = true ∧ b' = const 0) := fun hq => h ⟨hq.1, rfl, rfl, hq.2⟩
      rw [eq_of_nac_le ha, combine_nac_left hsafe]
      exact le_nac _
    · rw [combine_unassigned_right hnac]
      exact unassigned_le _
  · rw [combine_nac_right]
    exact le_nac _
  · by_cases hzero : op.isDivision = true ∧ b = const 0
    · rw [hzero.2, combine_zero hzero.1, combine_zero hzero.1]
    · rcases le_iff.mp ha with rfl | rfl | rfl
      · by_cases hnac : b = nac
        · rw [hnac, combine_nac_right, combine_nac_right]
        · rw [combine_unassigned_left hnac]
          exact unassigned_le _
      · rw [combine_nac_left hzero]
        exact le_nac _
      · exact le_rfl

end TacFlow.Value
