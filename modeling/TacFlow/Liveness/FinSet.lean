/-!
# Finite sets

Sets that are listed without repetition. Their order does not show: what a set is written as is
sorted.
-/

namespace TacFlow

/-- A finite set. -/
structure FinSet (α : Type) where
  elements : List α
  nodup : elements.Nodup

namespace FinSet

variable {α : Type}

/-- The set without elements. -/
def empty : FinSet α :=
  ⟨[], by simp⟩

/-- Whether there are no elements. -/
def isEmpty (s : FinSet α) : Bool :=
  s.elements.isEmpty

/-- The number of elements. -/
def size (s : FinSet α) : Nat :=
  s.elements.length

/-- The written form: the names of the elements, sorted. -/
def text (name : α → String) (s : FinSet α) : String :=
  let sorted := (s.elements.map name).mergeSort fun a b => a ≤ b
  "\x7b" ++ ", ".intercalate sorted ++ "\x7d"

variable [DecidableEq α]

/-- Whether an element is in the set. -/
def contains (s : FinSet α) (a : α) : Bool :=
  a ∈ s.elements

/-- Puts an element in. -/
def insert (s : FinSet α) (a : α) : FinSet α :=
  if h : a ∈ s.elements then s else ⟨a :: s.elements, List.nodup_cons.2 ⟨h, s.nodup⟩⟩

/-- Takes an element out. -/
def erase (s : FinSet α) (a : α) : FinSet α :=
  ⟨s.elements.filter (· ≠ a), s.nodup.sublist List.filter_sublist⟩

/-- The set of the elements of a list. -/
def ofList (as : List α) : FinSet α :=
  as.foldl insert empty

/-- Puts an element in and tells whether it is new. -/
def add (s : FinSet α) (a : α) : FinSet α × Bool :=
  (s.insert a, !s.contains a)

/-- Takes an element out and tells whether it was there. -/
def remove (s : FinSet α) (a : α) : FinSet α × Bool :=
  (s.erase a, s.contains a)

/-- The elements of either set. -/
def union (s t : FinSet α) : FinSet α :=
  t.elements.foldl insert s

/-- The elements of both sets. -/
def inter (s t : FinSet α) : FinSet α :=
  ⟨s.elements.filter (· ∈ t.elements), s.nodup.sublist List.filter_sublist⟩

/-- Whether two sets have the same elements. -/
def same (s t : FinSet α) : Bool :=
  s.size == t.size && s.elements.all t.contains

/-- Puts the elements of another set in and tells whether any is new. -/
def addAll (s t : FinSet α) : FinSet α × Bool :=
  (s.union t, !t.elements.all s.contains)

/-- Takes out what is not in another set and tells whether there was any such element. -/
def keepOnly (s t : FinSet α) : FinSet α × Bool :=
  (s.inter t, !s.elements.all t.contains)

/-- Replaces the set by another one and tells whether they differ. -/
def setTo (s t : FinSet α) : FinSet α × Bool :=
  (t, !s.same t)

end FinSet

end TacFlow
