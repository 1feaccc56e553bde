import TacFlow.Flow.Table

/-!
# Dataflow problems

A dataflow problem gives every node of a graph two facts. The near fact is merged from the far facts
of other nodes, and the far fact is computed from the near one. For a forward analysis the near side
of a node is its front and facts come from predecessors; for a backward analysis the near side is
its back and facts come from successors.
-/

namespace TacFlow

/-- A dataflow problem over nodes `N` with facts `F`. -/
structure Problem (N F : Type) where
  /-- The nodes in order. -/
  nodes : List N
  /-- The near fact of every node at the start. -/
  bottom : F
  /-- The far fact of a node at the start. -/
  start : N → F
  /-- What flows into a node from outside the graph. -/
  seed : N → F
  /-- Where the near fact of a node is merged from, with what happens to each fact on the way. -/
  inflow : N → List (N × (F → F))
  /-- Joins a fact into another one. -/
  join : F → F → F
  /-- The far fact of a node from its near fact and its former far fact. -/
  transfer : N → F → F → F
  /-- Whether two facts say the same. -/
  same : F → F → Bool
  /-- The nodes whose near facts are merged from the far fact of a node. -/
  users : N → List N

/-- The facts of a problem while it is being solved, with the number of visits made. -/
structure Facts (N F : Type) where
  near : Table N F
  far : Table N F
  visits : Nat

namespace Problem

variable {N F : Type} [DecidableEq N]

/-- The facts before the first visit. -/
def initial (p : Problem N F) : Facts N F where
  near := .ofNodes p.nodes fun _ => p.bottom
  far := .ofNodes p.nodes p.start
  visits := 0

/-- The far fact of a node. -/
def farOf (p : Problem N F) (facts : Facts N F) (n : N) : F :=
  (facts.far.get? n).getD p.bottom

/-- The near fact of a node. -/
def nearOf (p : Problem N F) (facts : Facts N F) (n : N) : F :=
  (facts.near.get? n).getD p.bottom

/-- Merges what flows into a node. -/
def merged (p : Problem N F) (facts : Facts N F) (n : N) : F :=
  (p.inflow n).foldl (fun acc (m, along) => p.join acc (along (p.farOf facts m))) (p.seed n)

/-- Whether the transfer of a node changes its far fact. -/
def changes (p : Problem N F) (near far : F) (n : N) : Bool :=
  !p.same (p.transfer n near far) far

/-- Visits a node: merges its near fact anew and transfers it. Tells whether the far fact changed. -/
def visit (p : Problem N F) (facts : Facts N F) (n : N) : Facts N F × Bool :=
  let near := p.merged facts n
  let far := p.farOf facts n
  ({ near := facts.near.set n near
     far := facts.far.set n (p.transfer n near far)
     visits := facts.visits + 1 },
    p.changes near far n)

end Problem

end TacFlow
