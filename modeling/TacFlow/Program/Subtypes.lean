import TacFlow.Index
import TacFlow.Program.Hierarchy

/-!
# Keeping direct subtypes

A class that becomes a member of the hierarchy is filed under its superclass, and under each mention of an
interface in its interface list. Its supertypes have to be linked by then, for it is filed only once.
-/

namespace TacFlow.Hierarchy

/-- A hierarchy with the direct subtypes of each class filed. -/
structure Filed where
  hierarchy : Hierarchy
  subclasses : Index ClassId ClassId
  subinterfaces : Index ClassId ClassId
  implementors : Index ClassId ClassId

namespace Filed

/-- A hierarchy without members. -/
def start (declared : List ClassDecl) : Filed :=
  ⟨⟨declared, []⟩, .empty, .empty, .empty⟩

/-- Files a class under its supertypes. -/
def fileSupertypes (k : Filed) (c : ClassDecl) : Filed :=
  { k with
    subclasses := k.subclasses.fileUnder c.super.toList c.id
    subinterfaces := if c.isInterface then k.subinterfaces.fileUnder c.interfaces c.id else k.subinterfaces
    implementors := if c.isInterface then k.implementors else k.implementors.fileUnder c.interfaces c.id }

/-- Makes a declared class a member and files it. -/
def add (k : Filed) (c : ClassId) : Except ProgramFault Filed := do
  let h ← k.hierarchy.add c
  return { (h.class? c).elim k k.fileSupertypes with hierarchy := h }

end Filed

end TacFlow.Hierarchy
