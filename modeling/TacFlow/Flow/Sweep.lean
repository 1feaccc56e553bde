import TacFlow.Flow.Problem

/-!
# The sweeping solver

Visits all nodes in turn, again and again, until a whole sweep changes nothing.
-/

namespace TacFlow.Problem

variable {N F : Type} [DecidableEq N]

/-- One sweep over some nodes. Tells whether any visit changed a far fact. -/
def sweep (p : Problem N F) (order : List N) (facts : Facts N F) : Facts N F × Bool :=
  order.foldl (fun (facts, changed) n =>
    let (next, c) := p.visit facts n
    (next, changed || c)) (facts, false)

/-- Sweeps until nothing changes; `none` if that takes more than `fuel` sweeps. -/
def runSweeps (p : Problem N F) (order : List N) : Nat → Facts N F → Option (Facts N F)
  | 0, _ => none
  | fuel + 1, facts =>
    match p.sweep order facts with
    | (next, true) => runSweeps p order fuel next
    | (next, false) => some next

/-- Solves the problem from its initial facts by sweeps over the given nodes. -/
def solveSweeping (p : Problem N F) (fuel : Nat) (order : List N) : Option (Facts N F) :=
  p.runSweeps order fuel p.initial

end TacFlow.Problem
