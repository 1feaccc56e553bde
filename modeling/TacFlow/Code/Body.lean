import TacFlow.Code.Stmt

/-!
# Method bodies

The code of one method: its variables, parameters first, and its statements. A point of a body is
a statement or one of the two points that stand before and behind all of them.
-/

namespace TacFlow

/-- The code of one method. `lines` holds the source line of each statement and is empty where there
is no source text. -/
structure Body where
  method : MethodId
  params : List Var
  vars : List Var
  stmts : List Stmt
  lines : List Nat

/-- A point of a body: the entry, a statement by its position, or the exit. -/
inductive Point where
  | entry
  | stmt (i : Nat)
  | exit
  deriving DecidableEq, Repr

namespace Body

/-- The statement at a point; the entry and the exit are none. -/
def at? (b : Body) : Point → Option Stmt
  | .stmt i => b.stmts[i]?
  | _ => none

/-- The points of a body in order. -/
def points (b : Body) : List Point :=
  .entry :: (List.range b.stmts.length).map .stmt ++ [.exit]

/-- The number that stands for a point in all output: minus one for the entry, the position of a
statement, and the number of statements for the exit. -/
def number (b : Body) : Point → Int
  | .entry => -1
  | .stmt i => i
  | .exit => b.stmts.length

/-- The point with a given number. -/
def point? (b : Body) (n : Int) : Option Point :=
  b.points.find? (b.number · == n)

/-- The point behind a statement: the next statement, or the exit. -/
def following (b : Body) (i : Nat) : Point :=
  if i + 1 < b.stmts.length then .stmt (i + 1) else .exit

/-- The variables that the body returns, each once, in the order of the returns. -/
def returnVars (b : Body) : List Var :=
  b.stmts.foldl (fun found s =>
    match s with
    | .ret (some (.var x)) => if x ∈ found then found else found ++ [x]
    | _ => found) []

/-- The calls of the body with their positions. -/
def calls (b : Body) : List (Nat × Call) :=
  b.stmts.zipIdx.filterMap fun (s, i) => s.call?.map (i, ·)

/-- The positions of the jumps that lack a target. -/
def looseJumps (b : Body) : List Nat :=
  b.stmts.zipIdx.filterMap fun (s, i) => if s.isLoose then some i else none

/-- Whether the statements of a body can be written. -/
def isWritable [Nesting] (b : Body) : Bool :=
  b.stmts.all Stmt.isWritable

/-- The variable with a given name, the last one declared if there are several. -/
def var? (b : Body) (name : String) : Option Var :=
  b.vars.reverse.find? (·.name == name)

end Body

end TacFlow
