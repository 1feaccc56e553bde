/-!
# Indexes

An index files values under keys as they come, and gives back what was filed under a key in the order of its
coming. The graphs and the hierarchy of this library keep one list each of what they hold, and what is asked
of them by key is picked out of that list; with an index the answers are kept up to date as the list grows.
-/

namespace TacFlow

/-- What is filed under each key. -/
def Index (κ α : Type) : Type :=
  κ → List α

namespace Index

variable {κ α : Type} [DecidableEq κ]

/-- The index with nothing in it. -/
def empty : Index κ α :=
  fun _ => []

/-- Files a value under a key, behind what is there. -/
def file (ix : Index κ α) (key : κ) (a : α) : Index κ α :=
  fun k => if k = key then ix k ++ [a] else ix k

/-- Files a value under each of some keys. -/
def fileUnder (ix : Index κ α) (keys : List κ) (a : α) : Index κ α :=
  keys.foldl (fun ix key => ix.file key a) ix

/-- Files a value under a key unless it is there. -/
def fileOnce [DecidableEq α] (ix : Index κ α) (key : κ) (a : α) : Index κ α :=
  if a ∈ ix key then ix else ix.file key a

end Index

/-- Edges filed by both their ends. -/
structure EdgeIndex (ν ε : Type) where
  outEdges : Index ν ε
  inEdges : Index ν ε

namespace EdgeIndex

variable {ν ε : Type} [DecidableEq ν]

/-- The index without edges. -/
def empty : EdgeIndex ν ε :=
  ⟨.empty, .empty⟩

/-- Files an edge that leads from one node to another. -/
def add (ix : EdgeIndex ν ε) (source target : ν) (e : ε) : EdgeIndex ν ε :=
  ⟨ix.outEdges.file source e, ix.inEdges.file target e⟩

end EdgeIndex

end TacFlow
