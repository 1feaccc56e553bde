import TacFlow.Flow.Sweep
import TacFlow.Flow.Worklist
import TacFlow.Text.Quoted

/-!
# Solutions

What an analysis of one graph answers: the facts before and after every node. A solver is chosen by
name, and the worklist solver takes forward analyses only.
-/

namespace TacFlow

/-- The facts before and after every node, with the number of visits that it took to find them. -/
structure Solution (N F : Type) where
  before : Table N F
  after : Table N F
  visits : Nat

/-- Replaces the fact before a node. -/
def Solution.setBefore {N F : Type} [DecidableEq N] (s : Solution N F) (n : N) (fact : F) : Solution N F :=
  { s with before := s.before.set n fact }

/-- Replaces the fact after a node. -/
def Solution.setAfter {N F : Type} [DecidableEq N] (s : Solution N F) (n : N) (fact : F) : Solution N F :=
  { s with after := s.after.set n fact }

/-- The solution of a forward problem: the near side of a node is before it. -/
def Facts.forward {N F : Type} (facts : Facts N F) : Solution N F :=
  ⟨facts.near, facts.far, facts.visits⟩

/-- The solution of a backward problem: the near side of a node is after it. -/
def Facts.backward {N F : Type} (facts : Facts N F) : Solution N F :=
  ⟨facts.far, facts.near, facts.visits⟩

/-- The two ways to solve a problem. -/
inductive SolverKind where
  | worklist | iterative
  deriving DecidableEq, Repr

namespace SolverKind

/-- The name of a solver. -/
def name : SolverKind → String
  | worklist => "worklist"
  | iterative => "iterative"

/-- The solver with a given name. -/
def ofName? (s : String) : Option SolverKind :=
  [worklist, iterative].find? (·.name == s)

end SolverKind

/-- Why an analysis has no solution. -/
inductive SolveError where
  /-- No solver has the name. -/
  | unknownSolver (name : String)
  /-- The worklist solver was asked for a backward analysis. -/
  | backwardWorklist (analysis : String)
  /-- The solver had to follow a jump that lacks its target. -/
  | looseJump (position : Nat)
  /-- The type of a variable that gets a value is nested too deep to tell whether it is tracked. -/
  | tooDeep
  /-- The facts were still changing when the visits ran out. -/
  | unfinished
  deriving DecidableEq

/-- The text of an error. -/
def SolveError.message : SolveError → String
  | unknownSolver name => "unknown solver " ++ Text.quoted name
  | backwardWorklist analysis => "WorkListSolver does not support backward analysis " ++ analysis
  | looseJump position => "the jump at " ++ toString position ++ " has no target"
  | tooDeep => "the type of a variable is nested too deep"
  | unfinished => "the facts keep changing"

/-- Visits or sweeps that are granted to a solver: more than any machine can make. -/
def visitLimit : Nat :=
  1152921504606846976

/-- A finished solution, or the error that there is none. -/
def finished {α : Type} : Option α → Except SolveError α
  | some a => .ok a
  | none => .error .unfinished

end TacFlow
