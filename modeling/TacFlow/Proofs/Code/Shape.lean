import TacFlow.Code.Body

/-!
# Shapes of code

Properties of code that can be read off it: what a statement defines, which right-hand sides are
single operations or are computed from their operands, and which variables a body returns.
-/

namespace TacFlow

/-- Variables and literals. -/
def Expr.isAtom : Expr → Bool
  | .lit _ | .var _ => true
  | _ => false

/-- A single operation on variables and literals, calls excepted. -/
def Expr.isFlat : Expr → Bool
  | .lit _ | .var _ | .alloc _ | .field _ _ | .staticField _ _ => true
  | .binary _ left right => left.isAtom && right.isAtom
  | .cast _ operand => operand.isAtom
  | .element _ index => index.isAtom
  | .call _ _ _ _ => false

/-- Whether the value of an expression is computed from its operands. -/
def Expr.isArithmetic : Expr → Bool
  | .var _ | .binary _ _ _ => true
  | _ => false

/-- Assigned values are flat. -/
def Stmt.isFlat : Stmt → Bool
  | .assign _ value => value.isFlat
  | _ => true

/-- Calls pass variables and literals, and only variables are returned. -/
def Stmt.isPlain : Stmt → Bool
  | .invoke _ call => call.args.all Expr.isAtom
  | .ret (some (.var _)) => true
  | .ret (some _) => false
  | _ => true

/-- The variable that a statement writes with the expression that gives the value. -/
def Stmt.definition : Stmt → Option (Var × Expr)
  | .assign (.var x) value => some (x, value)
  | .invoke (some x) call => some (x, call.toExpr)
  | _ => none

/-- A defined variable gets the value of a flat expression or the result of a call. -/
theorem Stmt.isFlat_or_call {s : Stmt} {x : Var} {e : Expr} (hflat : s.isFlat = true)
    (hd : s.definition = some (x, e)) : e.isFlat = true ∨ ∃ call : Call, e = call.toExpr := by
  unfold definition at hd
  split at hd
  · cases hd; exact Or.inl hflat
  · cases hd; exact Or.inr ⟨_, rfl⟩
  · exact absurd hd (by simp)

theorem Stmt.defined_of_definition {s : Stmt} {x : Var} {e : Expr}
    (hd : s.definition = some (x, e)) : s.defined = some x := by
  unfold definition at hd
  split at hd
  · cases hd; rfl
  · cases hd; rfl
  · exact absurd hd (by simp)

/-- The returned variables that have been found, after one more statement. -/
def Body.addReturned (found : List Var) (s : Stmt) : List Var :=
  match s with
  | .ret (some (.var x)) => if x ∈ found then found else found ++ [x]
  | _ => found

theorem Body.addReturned_ok {found : List Var} (hn : found.Nodup) (s : Stmt) :
    (addReturned found s).Nodup ∧
      ∀ x, x ∈ addReturned found s ↔ x ∈ found ∨ .ret (some (.var x)) = s := by
  unfold addReturned
  split
  · rename_i y
    split
    · rename_i hy
      refine ⟨hn, fun x => ⟨Or.inl, ?_⟩⟩
      rintro (hx | hx)
      · exact hx
      · cases hx
        exact hy
    · rename_i hy
      refine ⟨?_, fun x => by simp⟩
      rw [List.nodup_append]
      refine ⟨hn, by simp, ?_⟩
      intro x hx z hz hxz
      rw [List.mem_singleton.mp hz] at hxz
      exact hy (hxz ▸ hx)
  · rename_i hs
    exact ⟨hn, fun x => ⟨Or.inl, fun hx => hx.resolve_right fun hq => hs x hq.symm⟩⟩

/-- **The returned variables of a body are those that some statement returns, each once.** -/
theorem Body.returnVars_ok (b : Body) :
    b.returnVars.Nodup ∧ ∀ x, x ∈ b.returnVars ↔ .ret (some (.var x)) ∈ b.stmts := by
  have key : ∀ (ss : List Stmt) (found : List Var), found.Nodup →
      (ss.foldl addReturned found).Nodup ∧
        ∀ x, x ∈ ss.foldl addReturned found ↔ x ∈ found ∨ .ret (some (.var x)) ∈ ss := by
    intro ss
    induction ss with
    | nil => intro found hn; exact ⟨hn, by simp⟩
    | cons s ss ih =>
        intro found hn
        obtain ⟨hnodup, hmem⟩ := addReturned_ok hn s
        obtain ⟨hnodup', hmem'⟩ := ih _ hnodup
        refine ⟨hnodup', fun x => ?_⟩
        rw [List.foldl_cons, hmem', hmem, List.mem_cons, or_assoc]
  have h : b.returnVars = b.stmts.foldl addReturned [] := rfl
  rw [h]
  simpa using key b.stmts [] (by simp)

end TacFlow
