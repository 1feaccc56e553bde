import TacFlow.Flow.Problem

/-!
# The worklist solver

Visits nodes from a queue. Where a visit changes a far fact, the nodes that use it are put at the end
of the queue, whether they are in it already or not. The facts are solved when the queue is empty.
-/

namespace TacFlow.Problem

variable {N F : Type} [DecidableEq N]

/-- One step: visits the node at the front of the queue. -/
def worklistStep (p : Problem N F) (facts : Facts N F) (n : N) (queue : List N) :
    Facts N F × List N :=
  match p.visit facts n with
  | (facts, true) => (facts, queue ++ p.users n)
  | (facts, false) => (facts, queue)

/-- Runs until the queue is empty; `none` if that takes more than `fuel` visits. -/
def runWorklist (p : Problem N F) : Nat → Facts N F → List N → Option (Facts N F)
  | _, facts, [] => some facts
  | 0, _, _ :: _ => none
  | fuel + 1, facts, n :: queue =>
    let next := p.worklistStep facts n queue
    runWorklist p fuel next.1 next.2

/-- Solves the problem from its initial facts with the given nodes in the queue. -/
def solveWorklist (p : Problem N F) (fuel : Nat) (queue : List N) : Option (Facts N F) :=
  p.runWorklist fuel p.initial queue

end TacFlow.Problem
