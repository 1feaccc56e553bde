/-!
# Breadth-first search

One search serves every question of reachability in this library: supertypes, subtypes, control
flow and calls. It returns what it reaches in the order of arrival.
-/

namespace TacFlow.Search

variable {α : Type} [DecidableEq α]

/-- Takes elements from the front of the queue, passes over those seen before, and puts the
successors of a new one at the end. Each element taken costs one unit of fuel. -/
def run (next : α → List α) : Nat → List α → List α → List α
  | 0, _, seen => seen
  | _ + 1, [], seen => seen
  | fuel + 1, x :: queue, seen =>
    if x ∈ seen then run next fuel queue seen
    else run next fuel (queue ++ next x) (seen ++ [x])

/-- Enough fuel for a search from `start` that stays within `scope`: every element is expanded
at most once. -/
def enough (scope : List α) (next : α → List α) (start : List α) : Nat :=
  start.length + (scope.flatMap next).length + 1

/-- What can be reached from `start` within `scope`, the start included, in breadth-first
order. -/
def reach (scope : List α) (next : α → List α) (start : List α) : List α :=
  run next (enough scope next start) start []

end TacFlow.Search
