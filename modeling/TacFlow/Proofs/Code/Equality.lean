import TacFlow.Program.Hierarchy

/-!
# Equality of code

Whether two bodies or two programs are equal can be decided, so what a text stands for can be
compared with what is written out.
-/

namespace TacFlow

namespace Expr

mutual

/-- Whether two expressions are equal. -/
def equal : Expr → Expr → Bool
  | lit m, lit n => m = n
  | var x, var y => x = y
  | binary op l r, binary op' l' r' => op = op' && equal l l' && equal r r'
  | alloc t, alloc t' => t = t'
  | cast t e, cast t' e' => t = t' && equal e e'
  | field x name, field x' name' => x = x' && name = name'
  | staticField cls name, staticField cls' name' => cls = cls' && name = name'
  | element x e, element x' e' => x = x' && equal e e'
  | call k m x es, call k' m' x' es' => k = k' && m = m' && x = x' && equalAll es es'
  | _, _ => false

/-- Whether two lists of expressions are equal. -/
def equalAll : List Expr → List Expr → Bool
  | [], [] => true
  | e :: es, e' :: es' => equal e e' && equalAll es es'
  | _, _ => false

end

mutual

theorem equal_self : ∀ e : Expr, equal e e = true
  | lit _ | var _ | alloc _ | field _ _ | staticField _ _ => by simp [equal]
  | binary _ l r => by simp [equal, equal_self l, equal_self r]
  | cast _ e | element _ e => by simp [equal, equal_self e]
  | call _ _ _ es => by simp [equal, equalAll_self es]

theorem equalAll_self : ∀ es : List Expr, equalAll es es = true
  | [] => rfl
  | e :: es => by simp [equalAll, equal_self e, equalAll_self es]

end

mutual

theorem eq_of_equal : ∀ e e' : Expr, equal e e' = true → e = e' := by
  intro e e' h
  cases e <;> cases e' <;> simp only [equal, Bool.and_eq_true, decide_eq_true_eq, reduceCtorEq] at h
  case lit.lit => rw [h]
  case var.var => rw [h]
  case binary.binary => rw [h.1.1, eq_of_equal _ _ h.1.2, eq_of_equal _ _ h.2]
  case alloc.alloc => rw [h]
  case cast.cast => rw [h.1, eq_of_equal _ _ h.2]
  case field.field => rw [h.1, h.2]
  case staticField.staticField => rw [h.1, h.2]
  case element.element => rw [h.1, eq_of_equal _ _ h.2]
  case call.call => rw [h.1.1.1, h.1.1.2, h.1.2, eq_of_equalAll _ _ h.2]

theorem eq_of_equalAll : ∀ es es' : List Expr, equalAll es es' = true → es = es' := by
  intro es es' h
  cases es <;> cases es' <;> simp only [equalAll, Bool.and_eq_true, reduceCtorEq] at h
  case nil.nil => rfl
  case cons.cons => rw [eq_of_equal _ _ h.1, eq_of_equalAll _ _ h.2]

end

end Expr

instance : DecidableEq Expr := fun e e' =>
  decidable_of_iff (e.equal e' = true)
    ⟨Expr.eq_of_equal e e', fun h => h ▸ Expr.equal_self e⟩

deriving instance DecidableEq for Place, Call, Stmt, Body, Method, ClassDecl, Hierarchy, Program

end TacFlow
