import TacFlow.Constant.Arith
import TacFlow.Constant.Env

/-!
# Evaluation in the constant lattice

Evaluates an expression in an environment. A division by a known zero fails when it runs, so nothing
is concluded from it and its value is `unassigned`, even where the other operand is not a constant.
-/

namespace TacFlow

/-- Applies an operator to two values of the lattice. -/
def Value.combine (op : BinOp) (a b : Value) : Value :=
  if op.isDivision ∧ b = .const 0 then .unassigned
  else
    match a, b with
    | .nac, _ => .nac
    | _, .nac => .nac
    | .const m, .const n => .const (wrap32 (op.apply m n))
    | _, _ => .unassigned

/-- The value of an expression in an environment. Only literals, variables and binary operations are
followed; anything else is not a constant. -/
def Expr.eval (f : Env) : Expr → Value
  | lit n => .const (wrap32 n)
  | var x => f.get x
  | binary op left right => Value.combine op (left.eval f) (right.eval f)
  | _ => .nac

end TacFlow
