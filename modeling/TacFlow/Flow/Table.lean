/-!
# Fact tables

A table of the facts at the nodes of a graph.
-/

namespace TacFlow

/-- Facts by node. -/
structure Table (N F : Type) where
  entries : List (N × F)

namespace Table

variable {N F : Type} [DecidableEq N]

/-- The table that gives each of some nodes its fact. -/
def ofNodes (nodes : List N) (fact : N → F) : Table N F :=
  ⟨nodes.map fun n => (n, fact n)⟩

/-- The fact at a node. -/
def get? (t : Table N F) (n : N) : Option F :=
  (t.entries.find? (·.1 = n)).map (·.2)

/-- Replaces the fact at a node of the table. -/
def set (t : Table N F) (n : N) (fact : F) : Table N F :=
  ⟨t.entries.map fun e => if e.1 = n then (n, fact) else e⟩

end Table

end TacFlow
