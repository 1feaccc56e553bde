import Mathlib.Data.Int.ModEq
import TacFlow.Proofs.Code.Word
import TacFlow.Proofs.Constant.Ascent
import TacFlow.Proofs.Program.Parsed

/-!
# Evaluation

Two properties of the evaluation of expressions, whatever their operands and however deep they are
nested.

On literals it is the arithmetic of the machine: a literal of any size counts as the word with the same
low 32 bits, and an operation on two literals gives what the instruction gives on their words.

Evaluation does not always respect the order of environments. Where the divisor of something unknown
turns out to be zero, the quotient falls from `nac` to `unassigned`. An operation above it may lift it
again or let the fall through; `Expr.Falls` follows the fall from the quotients to the root, and it
tells exactly when the value of the whole expression does not rise.
-/

namespace TacFlow

variable {op : BinOp} {e : Expr} {a b : Int} {A B : Word} {f g : Env} {s : Option Stmt}

/-! ## Literals -/

/-- A word is determined by any integer with the same low bits. -/
theorem wrap32_of_modEq (h : A.toInt ≡ a [ZMOD 2 ^ 32]) : wrap32 a = A.toInt := by
  have h' : A.toInt % wordCount = a % wordCount := h
  rw [← wrap32_toInt A, wrap32, wrap32, ← Int.emod_bmod, ← h', Int.emod_bmod]

/-- **On literals evaluation is the arithmetic of the machine.** The value of an operation is
unassigned where the instruction has no result, on a division by zero, and else it is the signed
number of the word that the instruction gives. -/
theorem Expr.eval_binary_lit (f : Env) (hA : A.toInt ≡ a [ZMOD 2 ^ 32])
    (hB : B.toInt ≡ b [ZMOD 2 ^ 32]) :
    (op.isDivision = true ∧ B = 0#32 →
        (Expr.binary op (.lit a) (.lit b)).eval f = .unassigned) ∧
      (¬ (op.isDivision = true ∧ B = 0#32) →
        ∃ r, op.onWords A B = some r ∧
          (Expr.binary op (.lit a) (.lit b)).eval f = .const r.toInt) := by
  have heval : (Expr.binary op (.lit a) (.lit b)).eval f =
      .combine op (.const A.toInt) (.const B.toInt) := by
    simp only [Expr.eval, wrap32_of_modEq hA, wrap32_of_modEq hB]
  rw [heval]
  refine ⟨?_, fun h => ?_⟩
  · rintro ⟨hop, rfl⟩
    exact Value.combine_zero hop _
  · obtain ⟨r, hr⟩ := Option.ne_none_iff_exists'.mp (mt BinOp.onWords_eq_none.mp h)
    have hzero : ¬ (op.isDivision = true ∧ Value.const B.toInt = .const 0) := by
      rintro ⟨hop, hB⟩
      exact h ⟨hop, BitVec.eq_of_toInt_eq (Value.const.inj hB)⟩
    exact ⟨r, hr, by rw [Value.combine_const hzero, wrap32_apply hr]⟩

/-- The least number divided by minus one wraps around to itself. The literals are the largest
numbers but one of 32 and of 64 bits without a sign. -/
theorem Expr.eval_binary_lit_least :
    (Expr.binary .div (.lit 2147483648) (.lit 18446744073709551615)).eval .empty =
      .const (-2147483648) := by
  have hleast : (BitVec.intMin 32).toInt ≡ 2147483648 [ZMOD 2 ^ 32] := by decide
  have hminus : (-1#32).toInt ≡ 18446744073709551615 [ZMOD 2 ^ 32] := by decide
  have hdefined : ¬ (BinOp.div.isDivision = true ∧ -1#32 = 0#32) := by decide
  obtain ⟨r, hr, heval⟩ := (Expr.eval_binary_lit .empty hleast hminus).2 hdefined
  rw [heval, ← Option.some.inj hr]
  decide

/-! ## Where a value falls -/

/-- The value of the expression falls from `nac` to `unassigned` between two environments: a quotient
inside falls, and nothing on the way up holds it back. -/
def Expr.Falls (f g : Env) : Expr → Prop
  | binary op left right =>
    Value.Hazard op (left.eval f) (right.eval f) (right.eval g) ∨
      (left.Falls f g ∧ ¬ (op.isDivision = true ∧ right.eval f = .const 0) ∧ right.eval g ≠ .nac) ∨
      (right.Falls f g ∧ left.eval g ≠ .nac)
  | _ => False

/-- A value that falls was not a constant, and then nothing is known of it. -/
theorem Expr.eval_of_falls (h : e.Falls f g) : e.eval f = .nac ∧ e.eval g = .unassigned := by
  fun_induction Expr.Falls f g e with
  | case1 op left right ihl ihr =>
      rcases h with ⟨hop, hl, hr, hr'⟩ | ⟨hl, hzero, hr⟩ | ⟨hr, hl⟩
      · simp only [Expr.eval, hl, hr, hr', Value.combine_zero hop, and_true]
        exact Value.combine_nac_left (by simp)
      · simp only [Expr.eval, ihl hl, Value.combine_nac_left hzero, true_and]
        exact Value.combine_unassigned_left hr
      · simp only [Expr.eval, ihr hr, Value.combine_nac_right, true_and]
        exact Value.combine_unassigned_right hl
  | case2 => exact h.elim

/-- A value that does not fall rises with the environment. -/
theorem Expr.eval_mono_of_not_falls (h : f.get ≤ g.get) (he : ¬ e.Falls f g) :
    e.eval f ≤ e.eval g := by
  fun_induction Expr.Falls f g e with
  | case1 op left right ihl ihr =>
      obtain ⟨hhazard, hleft, hright⟩ := by simpa only [not_or] using he
      by_cases hl : left.Falls f g
      · -- the operation holds the fall back: it fails already before, or it stays unknown
        obtain ⟨hf, hg⟩ := eval_of_falls hl
        by_cases hzero : op.isDivision = true ∧ right.eval f = .const 0
        · simp only [Expr.eval, hzero.2, Value.combine_zero hzero.1]
          exact Value.unassigned_le _
        · have hnac : right.eval g = .nac := by
            by_contra hne
            exact hleft ⟨hl, hzero, hne⟩
          simp only [Expr.eval, hnac, Value.combine_nac_right]
          exact Value.le_nac _
      · by_cases hr : right.Falls f g
        · have hnac : left.eval g = .nac := by
            by_contra hne
            exact hright ⟨hr, hne⟩
          simp only [Expr.eval, hnac, (eval_of_falls hr).2]
          rw [Value.combine_nac_left (by simp)]
          exact Value.le_nac _
        · exact Value.combine_mono (ihl hl) (ihr hr) hhazard
  | case2 e hbinary =>
      cases e with
      | var x => exact h x
      | binary op left right => exact (hbinary op left right rfl).elim
      | _ => exact le_rfl

/-- **A value rises with the environment exactly if it does not fall**, from `nac` to `unassigned`
because of a quotient inside. -/
theorem Expr.eval_le_eval_iff (h : f.get ≤ g.get) :
    e.eval f ≤ e.eval g ↔ ¬ e.Falls f g := by
  refine ⟨fun hle hfalls => ?_, eval_mono_of_not_falls h⟩
  obtain ⟨hf, hg⟩ := eval_of_falls hfalls
  rw [hf, hg] at hle
  exact absurd (Value.eq_of_nac_le hle) (by simp)

/-- An expression whose variables are all bound and whose value becomes a constant had it before. -/
theorem Expr.eval_eq_const_of_le {n : Int} (h : f.get ≤ g.get)
    (hbound : ∀ x ∈ e.uses, f.get x ≠ .unassigned) (he : e.eval g = .const n) :
    e.eval f = .const n := by
  fun_induction Expr.eval g e generalizing n with
  | case1 k => exact he
  | case2 x =>
      rcases Value.le_iff.mp (h x) with hx | hx | hx
      · exact absurd hx (hbound x (by simp [uses]))
      · rw [hx] at he
        exact absurd he (by simp)
      · exact hx.trans he
  | case3 op left right ihl ihr =>
      obtain ⟨m, k, hl, hr, hzero, rfl⟩ := Value.combine_eq_const he
      have hleft := ihl (fun x hx => hbound x (List.mem_append_left _ hx)) hl
      have hright := ihr (fun x hx => hbound x (List.mem_append_right _ hx)) hr
      rw [Expr.eval, hleft, hright, Value.combine_const hzero]
  | case4 => exact absurd he (by simp)

/-- No value falls once everything that it depends on is bound. -/
theorem Expr.not_falls_of_bound (h : f.get ≤ g.get)
    (hbound : ∀ x ∈ e.uses, f.get x ≠ .unassigned) : ¬ e.Falls f g := by
  fun_induction Expr.Falls f g e with
  | case1 op left right ihl ihr =>
      have hleft : ∀ x ∈ left.uses, f.get x ≠ .unassigned :=
        fun x hx => hbound x (List.mem_append_left _ hx)
      have hright : ∀ x ∈ right.uses, f.get x ≠ .unassigned :=
        fun x hx => hbound x (List.mem_append_right _ hx)
      rintro (⟨_, _, hr, hr'⟩ | ⟨hl, _⟩ | ⟨hr, _⟩)
      · rw [eval_eq_const_of_le h hright hr'] at hr
        exact absurd hr (by simp)
      · exact ihl hleft hl
      · exact ihr hright hr
  | case2 => exact id

namespace Constants

/-- The value that a statement gives to a tracked variable falls. -/
def AssignsFalling (f g : Env) (s : Option Stmt) : Prop :=
  ∃ s' x e, s = some s' ∧ s'.definition = some (x, e) ∧ x.isIntLike = true ∧ e.Falls f g

/-- Into an empty fact a transfer is the flow. -/
theorem get_transferStmt_empty (s : Option Stmt) (f : Env) :
    (transferStmt s f .empty).get = flow s f :=
  get_transferStmt_of_le fun _ => Value.unassigned_le _

theorem flow_of_definition {s : Stmt} {x : Var} (hd : s.definition = some (x, e))
    (hx : x.isIntLike = true) (f : Env) : flow (some s) f x = e.eval f :=
  flow_assigned (by rw [Option.bind_some, assigned_of_definition f hd, if_pos hx])

/-- A statement whose value does not fall passes on whatever rises. -/
theorem flow_le_flow_iff (h : f.get ≤ g.get) :
    flow s f ≤ flow s g ↔ ¬ AssignsFalling f g s := by
  constructor
  · rintro hle ⟨s', x, e, rfl, hd, hx, hfalls⟩
    have hlex := hle x
    rw [flow_of_definition hd hx, flow_of_definition hd hx] at hlex
    exact (Expr.eval_le_eval_iff h).mp hlex hfalls
  · intro hsteady x
    by_cases hdef : ∃ s' e, s = some s' ∧ s'.definition = some (x, e) ∧ x.isIntLike = true
    · obtain ⟨s', e, rfl, hd, hx⟩ := hdef
      rw [flow_of_definition hd hx, flow_of_definition hd hx]
      exact (Expr.eval_le_eval_iff h).mpr fun hfalls => hsteady ⟨s', x, e, rfl, hd, hx, hfalls⟩
    · have hkept : ∀ f v, s.bind (assigned f) ≠ some (x, v) := by
        intro f v hv
        obtain ⟨s', rfl, hs'⟩ := Option.bind_eq_some_iff.mp hv
        obtain ⟨e, hd, hx, _⟩ := definition_of_assigned hs'
        exact hdef ⟨s', e, rfl, hd, hx⟩
      rw [flow_kept (hkept f), flow_kept (hkept g)]
      exact h x

/-- **Evaluation and transfers respect the order of environments exactly where no value falls.** A
value that falls does so from `nac` to `unassigned`, and no value falls between environments that
bind its variables. -/
theorem mono_iff_not_falls (h : f.get ≤ g.get) :
    (∀ e : Expr, (e.eval f ≤ e.eval g ↔ ¬ e.Falls f g) ∧
      (e.Falls f g → e.eval f = .nac ∧ e.eval g = .unassigned ∧
        ∃ x ∈ e.uses, f.get x = .unassigned)) ∧
      ∀ s, ((transferStmt s f .empty).get ≤ (transferStmt s g .empty).get ↔
        ¬ AssignsFalling f g s) := by
  refine ⟨fun e => ⟨Expr.eval_le_eval_iff h, fun hfalls => ?_⟩, fun s => ?_⟩
  · have hopen : ∃ x ∈ e.uses, f.get x = .unassigned := by
      by_contra hbound
      push Not at hbound
      exact Expr.not_falls_of_bound h hbound hfalls
    exact ⟨(Expr.eval_of_falls hfalls).1, (Expr.eval_of_falls hfalls).2, hopen⟩
  · rw [get_transferStmt_empty, get_transferStmt_empty]
    exact flow_le_flow_iff h

/-! ## A quotient that falls -/

/-- A quotient of two variables. -/
def quotient : Expr :=
  .binary .div (.var (intVar 0 "x")) (.var (intVar 1 "y"))

/-- The dividend is known not to be a constant, and of the divisor nothing is known. -/
def dividendOnly : Env :=
  Env.empty.set (intVar 0 "x") .nac

/-- The divisor is known to be zero as well. -/
def zeroDivisor : Env :=
  dividendOnly.set (intVar 1 "y") (.const 0)

theorem dividendOnly_le : dividendOnly.get ≤ zeroDivisor.get := by
  intro x
  rw [zeroDivisor, Env.get_set]
  split
  · rename_i hx
    rw [hx, dividendOnly, Env.get_set_ne _ _ (by decide)]
    exact Value.unassigned_le _
  · exact le_rfl

/-- More is known, and the quotient falls, with it what its assignment passes on. -/
theorem not_mono_quotient :
    dividendOnly.get ≤ zeroDivisor.get ∧
      ¬ quotient.eval dividendOnly ≤ quotient.eval zeroDivisor ∧
      ¬ (transferStmt (some (.assign (.var (intVar 2 "v")) quotient)) dividendOnly .empty).get ≤
        (transferStmt (some (.assign (.var (intVar 2 "v")) quotient)) zeroDivisor .empty).get := by
  have hfalls : quotient.Falls dividendOnly zeroDivisor :=
    Or.inl ⟨rfl, by decide, by decide, by decide⟩
  refine ⟨dividendOnly_le, fun hle => ?_, fun hle => ?_⟩
  · exact (Expr.eval_le_eval_iff dividendOnly_le).mp hle hfalls
  · rw [get_transferStmt_empty, get_transferStmt_empty] at hle
    exact (flow_le_flow_iff dividendOnly_le).mp hle ⟨_, _, _, rfl, rfl, by decide, hfalls⟩

/-- The product of the same variables rises instead. -/
theorem mono_iff_not_falls_product :
    (Expr.binary .mul (.var (intVar 0 "x")) (.var (intVar 1 "y"))).eval dividendOnly ≤
      (Expr.binary .mul (.var (intVar 0 "x")) (.var (intVar 1 "y"))).eval zeroDivisor := by
  refine ((mono_iff_not_falls dividendOnly_le).1 _).1.mpr ?_
  simp [Expr.Falls, Value.Hazard, BinOp.isDivision]

end Constants

end TacFlow
