import TacFlow.Code.Expr
import TacFlow.Decimal.Digits

/-!
# Source trees

What a program text says, with names still unresolved. Positions count the characters before a
part.
-/

namespace TacFlow.Source

/-- An integer literal with the number of its digits. -/
structure Literal where
  value : Int
  digits : Nat
  deriving DecidableEq, Repr

/-- An operand: an integer literal or the name of a variable. -/
inductive Atom where
  | lit (n : Literal)
  | name (x : String)
  deriving DecidableEq, Repr

/-- The signature at a call. -/
structure Callee where
  owner : String
  subsig : Subsignature
  deriving DecidableEq, Repr

/-- A call. -/
structure Call where
  kind : CallKind
  receiver : Option String
  callee : Callee
  args : List Atom
  deriving DecidableEq, Repr

/-- A reference to an array element or to a field. -/
inductive Access where
  | element (base : String) (index : Atom)
  | field (base name : String)
  deriving DecidableEq, Repr

/-- The left-hand side of an assignment. -/
inductive Target where
  | name (x : String)
  | access (a : Access)
  deriving DecidableEq, Repr

/-- The right-hand side of an assignment. -/
inductive Value where
  | atom (a : Atom)
  | alloc (t : Ty)
  | cast (t : Ty) (operand : Atom)
  | binary (left : Atom) (op : BinOp) (right : Atom)
  | access (a : Access)
  deriving DecidableEq, Repr

/-- What a statement says. Jumps name labels. -/
inductive Action where
  | branch (left : Atom) (op : BinOp) (right : Atom) (label : String)
  | goto (label : String)
  | switch (subject : String) (cases : List (Literal × String)) (default : String)
  | ret (value : Option String)
  | nop
  | invoke (result : Option String) (call : Call)
  | assign (target : Target) (value : Value)
  deriving DecidableEq, Repr

/-- A statement with the labels in front of it. The position is behind the labels. -/
structure Stmt where
  labels : List String
  pos : Nat
  action : Action
  deriving DecidableEq, Repr

/-- A part of a method body. -/
inductive Item where
  | locals (type : Ty) (names : List String) (pos : Nat)
  | stmt (s : Stmt)
  deriving DecidableEq, Repr

/-- Words in front of a method. -/
inductive Modifier where
  | staticWord | abstractWord | privateWord | publicWord
  deriving DecidableEq, Repr

/-- A method declaration; without a body it ends with a semicolon. -/
structure Method where
  modifiers : List Modifier
  result : Ty
  name : String
  params : List (Ty × Option String)
  body : Option (List Item)
  pos : Nat
  deriving DecidableEq, Repr

/-- A class or interface declaration. -/
structure Class where
  name : String
  isInterface : Bool
  isAbstract : Bool
  extended : List String
  implemented : List String
  methods : List Method
  pos : Nat
  deriving DecidableEq, Repr

/-- The subsignature of a declared method. -/
def Method.subsig (m : Method) : Subsignature :=
  ⟨m.result, m.name, m.params.map (·.1)⟩

/-! ## Literals -/

/-- The literal that an operand is. -/
def Atom.literals : Atom → List Literal
  | lit n => [n]
  | name _ => []

/-- The literals in an access. -/
def Access.literals : Access → List Literal
  | element _ index => index.literals
  | field _ _ => []

/-- The literals on the left of an assignment. -/
def Target.literals : Target → List Literal
  | name _ => []
  | access a => a.literals

/-- The literals on the right of an assignment. -/
def Value.literals : Value → List Literal
  | atom a => a.literals
  | alloc _ => []
  | cast _ operand => operand.literals
  | binary left _ right => left.literals ++ right.literals
  | access a => a.literals

/-- The literals of a statement. -/
def Action.literals : Action → List Literal
  | branch left _ right _ => left.literals ++ right.literals
  | switch _ cases _ => cases.map (·.1)
  | invoke _ call => call.args.flatMap Atom.literals
  | assign target value => target.literals ++ value.literals
  | goto _ | ret _ | nop => []

/-- The literals of a part of a body. -/
def Item.literals : Item → List Literal
  | locals _ _ _ => []
  | stmt s => s.action.literals

/-- The literals of a class. -/
def Class.literals (c : Class) : List Literal :=
  c.methods.flatMap fun m => (m.body.getD []).flatMap Item.literals

/-- Whether a literal has more digits than are read as a whole number. -/
def Literal.isTooLong (n : Literal) : Bool :=
  Decimal.longestRun < n.digits

end TacFlow.Source
