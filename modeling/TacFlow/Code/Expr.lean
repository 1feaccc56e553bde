import TacFlow.Signature

/-!
# Expressions

Variables, operators and expressions of three-address code. In code that was read from a text the
operands of an expression are variables and integer literals; the types below admit operands of any
depth.
-/

namespace TacFlow

/-- A local variable of a method body. Its index is its identity within the body. -/
structure Var where
  index : Nat
  name : String
  type : Ty
  deriving DecidableEq, Repr

/-- Whether the value of a variable is tracked as a 32-bit integer. -/
def Var.isIntLike (x : Var) : Bool :=
  x.type.isIntLike

/-- Binary operators. -/
inductive BinOp where
  | add | sub | mul | div | rem
  | eq | ne | lt | gt | le | ge
  | shl | shr | ushr
  | or | and | xor
  deriving DecidableEq, Repr

namespace BinOp

/-- Every operator. -/
def all : List BinOp :=
  [add, sub, mul, div, rem, eq, ne, lt, gt, le, ge, shl, shr, ushr, or, and, xor]

/-- The symbol of an operator. -/
def symbol : BinOp → String
  | add => "+"
  | sub => "-"
  | mul => "*"
  | div => "/"
  | rem => "%"
  | eq => "=="
  | ne => "!="
  | lt => "<"
  | gt => ">"
  | le => "<="
  | ge => ">="
  | shl => "<<"
  | shr => ">>"
  | ushr => ">>>"
  | or => "|"
  | and => "&"
  | xor => "^"

/-- The operator with a given symbol. -/
def ofSymbol? (s : String) : Option BinOp :=
  all.find? (·.symbol == s)

/-- Division and remainder, the operators that fail on a zero. -/
def isDivision : BinOp → Bool
  | div | rem => true
  | _ => false

end BinOp

/-- How the target of a call is selected. -/
inductive CallKind where
  | static | special | virtual | interface
  deriving DecidableEq, Repr

namespace CallKind

/-- Every kind of call. -/
def all : List CallKind :=
  [static, special, virtual, interface]

/-- The name of a kind, as it stands behind `invoke`. -/
def name : CallKind → String
  | static => "static"
  | special => "special"
  | virtual => "virtual"
  | interface => "interface"

/-- The name of a kind in capitals. -/
def label : CallKind → String
  | static => "STATIC"
  | special => "SPECIAL"
  | virtual => "VIRTUAL"
  | interface => "INTERFACE"

/-- The kind with a given name. -/
def ofName? (s : String) : Option CallKind :=
  all.find? (·.name == s)

end CallKind

/-- Right-hand sides, conditions and operands. -/
inductive Expr where
  | lit (n : Int)
  | var (x : Var)
  | binary (op : BinOp) (left right : Expr)
  | alloc (t : Ty)
  | cast (t : Ty) (operand : Expr)
  | field (base : Var) (name : String)
  | staticField (cls name : String)
  | element (base : Var) (index : Expr)
  | call (kind : CallKind) (target : MethodId) (receiver : Option Var) (args : List Expr)

namespace Expr

mutual

/-- The variables read by an expression, in order and with repetitions. -/
def uses : Expr → List Var
  | lit _ => []
  | var x => [x]
  | binary _ left right => left.uses ++ right.uses
  | alloc _ => []
  | cast _ operand => operand.uses
  | field base _ => [base]
  | staticField _ _ => []
  | element base index => base :: index.uses
  | call _ _ receiver args => receiver.toList ++ usesOfAll args

/-- The variables read by a list of expressions. -/
def usesOfAll : List Expr → List Var
  | [] => []
  | e :: rest => e.uses ++ usesOfAll rest

end

mutual

/-- The written form of an expression. Operands are not bracketed. -/
def text : Expr → String
  | lit n => toString n
  | var x => x.name
  | binary op left right => left.text ++ " " ++ op.symbol ++ " " ++ right.text
  | alloc t => "new " ++ t.text
  | cast t operand => "(" ++ t.text ++ ") " ++ operand.text
  | field base name => base.name ++ "." ++ name
  | staticField cls name => cls ++ "." ++ name
  | element base index => base.name ++ "[" ++ index.text ++ "]"
  | call kind target receiver args =>
    let on := match receiver with
      | some x => x.name ++ "."
      | none => ""
    "invoke" ++ kind.name ++ " " ++ on ++ target.text ++ "(" ++
      ", ".intercalate (textsOfAll args) ++ ")"

/-- The written forms of a list of expressions. -/
def textsOfAll : List Expr → List String
  | [] => []
  | e :: rest => e.text :: textsOfAll rest

end

mutual

/-- How deep an expression is nested. -/
def depth : Expr → Nat
  | lit _ | var _ | field _ _ | staticField _ _ => 0
  | binary _ left right => max left.depth right.depth + 1
  | alloc t => t.dimensions + 1
  | cast t operand => max t.dimensions operand.depth + 1
  | element _ index => index.depth + 1
  | call _ target _ args => max target.depth (depthOfAll args) + 1

/-- How deep the deepest of a list of expressions is nested. -/
def depthOfAll : List Expr → Nat
  | [] => 0
  | e :: rest => max e.depth (depthOfAll rest)

end

/-- Whether an expression can be written. -/
def isWritable [Nesting] (e : Expr) : Bool :=
  e.depth ≤ Nesting.writable

/-- Whether evaluating an expression cannot write or read the heap, allocate or fail. Only its
outermost operation counts, and a call counts as harmless. -/
def isPure : Expr → Bool
  | alloc _ | cast _ _ | field _ _ | staticField _ _ | element _ _ => false
  | binary op _ _ => !op.isDivision
  | lit _ | var _ | call _ _ _ _ => true

end Expr

end TacFlow
