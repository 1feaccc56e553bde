import TacFlow.Code.Expr

/-!
# Statements

A method body is a list of statements, and a jump names its target by position. A jump of a body
that was assembled by hand may still lack its target.
-/

namespace TacFlow

/-- Left-hand sides of assignments. -/
inductive Place where
  | var (x : Var)
  | field (base : Var) (name : String)
  | staticField (cls name : String)
  | element (base : Var) (index : Expr)

namespace Place

/-- A place read as an expression. -/
def toExpr : Place → Expr
  | var x => .var x
  | field base name => .field base name
  | staticField cls name => .staticField cls name
  | element base index => .element base index

/-- The variable that an assignment to the place defines. -/
def defined : Place → Option Var
  | var x => some x
  | _ => none

/-- The variables that are read to find the place. -/
def uses : Place → List Var
  | var _ => []
  | p => p.toExpr.uses

end Place

/-- A call with its receiver, which static calls do without, and its arguments. -/
structure Call where
  kind : CallKind
  target : MethodId
  receiver : Option Var
  args : List Expr

/-- A call as an expression. -/
def Call.toExpr (c : Call) : Expr :=
  .call c.kind c.target c.receiver c.args

/-- Statements. Jump targets are positions in the body. -/
inductive Stmt where
  | assign (place : Place) (value : Expr)
  | invoke (result : Option Var) (call : Call)
  | branch (cond : Expr) (target : Option Nat)
  | goto (target : Option Nat)
  | switch (subject : Var) (cases : List (Int × Nat)) (default : Option Nat)
  | ret (value : Option Expr)
  | nop

namespace Stmt

/-- The variable that a statement writes. -/
def defined : Stmt → Option Var
  | assign place _ => place.defined
  | invoke result _ => result
  | _ => none

/-- The variables that a statement reads, in order and with repetitions. -/
def uses : Stmt → List Var
  | assign place value => place.uses ++ value.uses
  | invoke _ call => call.toExpr.uses
  | branch cond _ => cond.uses
  | goto _ => []
  | switch subject _ _ => [subject]
  | ret value => (value.map Expr.uses).getD []
  | nop => []

/-- The positions that a jump names, cases first. -/
def targets : Stmt → List Nat
  | branch _ target | goto target => target.toList
  | switch _ cases default => cases.map (·.2) ++ default.toList
  | _ => []

/-- Whether a jump lacks its target. -/
def isLoose : Stmt → Bool
  | branch _ none | goto none | switch _ _ none => true
  | _ => false

/-- Whether control can pass on to the next statement. -/
def canFallThrough : Stmt → Bool
  | goto _ | switch _ _ _ | ret _ => false
  | _ => true

/-- A call of the statement, if it is a call site. -/
def call? : Stmt → Option Call
  | invoke _ call => some call
  | _ => none

/-- The outermost expressions of a statement. -/
def exprs : Stmt → List Expr
  | assign place value => [place.toExpr, value]
  | invoke _ call => [call.toExpr]
  | branch cond _ => [cond]
  | ret value => value.toList
  | goto _ | switch _ _ _ | nop => []

/-- How deep a statement is nested. -/
def depth (s : Stmt) : Nat :=
  (s.exprs.map Expr.depth).foldl max 0 + 1

/-- Whether a statement can be written behind its position. -/
def isWritable [Nesting] (s : Stmt) : Bool :=
  s.depth < Nesting.writable

/-- The written form of a jump target. -/
def targetText : Option Nat → String
  | some i => toString i
  | none => "?"

/-- The written form of a statement, without a semicolon. -/
def text : Stmt → String
  | assign place value => place.toExpr.text ++ " = " ++ value.text
  | invoke none call => call.toExpr.text
  | invoke (some x) call => x.name ++ " = " ++ call.toExpr.text
  | branch cond target => "if (" ++ cond.text ++ ") goto " ++ targetText target
  | goto target => "goto " ++ targetText target
  | switch subject cases default =>
    let shown := cases.map fun (label, target) => toString label ++ "->" ++ toString target
    "switch (" ++ subject.name ++ ") \x7b" ++ ", ".intercalate shown ++ ", default->" ++
      targetText default ++ "\x7d"
  | ret none => "return"
  | ret (some value) => "return " ++ value.text
  | nop => "nop"

end Stmt

end TacFlow
