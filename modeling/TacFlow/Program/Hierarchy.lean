import TacFlow.Code.Body
import TacFlow.Program.Error
import TacFlow.Search

/-!
# Classes and their hierarchy

Classes and interfaces with their declared methods, and the questions that class hierarchy analysis
asks: declared methods, superclasses, and direct subtypes. A class can be declared before it becomes
a member of the hierarchy; only members count as subtypes.
-/

namespace TacFlow

/-- A declared method, with its code if it has any. -/
structure Method where
  id : MethodId
  isStatic : Bool
  isAbstract : Bool
  isPrivate : Bool
  paramNames : List String
  body : Option Body

namespace Method

/-- The name of a method. -/
def name (m : Method) : String :=
  m.id.subsig.name

/-- Constructors are named `<init>`. -/
def isConstructor (m : Method) : Bool :=
  m.name == "<init>"

/-- Whether a call of the method has a result. -/
def returnsValue (m : Method) : Bool :=
  m.id.subsig.result != .primitive .void

end Method

/-- A declared class or interface. -/
structure ClassDecl where
  id : ClassId
  isInterface : Bool
  isAbstract : Bool
  super : Option ClassId
  interfaces : List ClassId
  methods : List Method

namespace ClassDecl

/-- The name of a class. -/
def name (c : ClassDecl) : String :=
  c.id.name

/-- The direct supertypes of a class. -/
def parents (c : ClassDecl) : List ClassId :=
  c.interfaces ++ c.super.toList

/-- The method declared under a subsignature. -/
def method? (c : ClassDecl) (s : Subsignature) : Option Method :=
  c.methods.find? (·.id.subsig == s)

/-- Whether the class can tell which method it declares under a subsignature. The types must not be nested
too deep for a look-up, and if there is such a method, not too deep for the comparison that finds it. -/
def canLookUp [Nesting] (c : ClassDecl) (s : Subsignature) : Bool :=
  s.isSearchable && (s.isComparable || (c.method? s).isNone)

/-- Declares a method; a class has one method of each subsignature. -/
def declare [Nesting] (c : ClassDecl) (m : Method) : Except ProgramFault ClassDecl :=
  if !c.canLookUp m.id.subsig then .error .tooDeep
  else if (c.method? m.id.subsig).isSome then .error (.duplicateMethod m.id.subsig c.name)
  else .ok { c with methods := c.methods ++ [m] }

end ClassDecl

/-- All declared classes, and those among them that are members of the hierarchy, in the order in
which they were added. -/
structure Hierarchy where
  declared : List ClassDecl
  members : List ClassId

namespace Hierarchy

/-- The hierarchy without classes. -/
def empty : Hierarchy :=
  ⟨[], []⟩

/-- The declaration of a class. -/
def class? (h : Hierarchy) (c : ClassId) : Option ClassDecl :=
  h.declared.find? (·.id == c)

/-- The member with a given name. -/
def member? (h : Hierarchy) (name : String) : Option ClassDecl :=
  (h.members.find? (·.name == name)).bind h.class?

/-- The members in order. -/
def classes (h : Hierarchy) : List ClassDecl :=
  h.members.filterMap h.class?

/-- Declares a class without making it a member. -/
def declare (h : Hierarchy) (c : ClassDecl) : Hierarchy :=
  { h with declared := h.declared ++ [c] }

/-- Makes a declared class a member; the members have different names. -/
def add (h : Hierarchy) (c : ClassId) : Except ProgramFault Hierarchy :=
  if h.members.any (·.name == c.name) then .error (.duplicateClass c.name)
  else .ok { h with members := h.members ++ [c] }

/-- Replaces the declaration of a class. -/
def update (h : Hierarchy) (c : ClassDecl) : Hierarchy :=
  { h with declared := h.declared.map fun d => if d.id = c.id then c else d }

/-- Declares a method of a class. -/
def declareMethod [Nesting] (h : Hierarchy) (m : Method) : Except ProgramFault Hierarchy :=
  match h.class? m.id.owner with
  | none => .error (.unknownClass m.id.owner.name)
  | some c => do return h.update (← c.declare m)

/-- The methods of all members, in the order of the classes. -/
def methods (h : Hierarchy) : List Method :=
  h.classes.flatMap (·.methods)

/-- The methods of all declared classes. -/
def declaredMethods (h : Hierarchy) : List Method :=
  h.declared.flatMap (·.methods)

/-- The method that a class itself declares under a subsignature. -/
def method? (h : Hierarchy) (m : MethodId) : Option Method :=
  (h.class? m.owner).bind (·.method? m.subsig)

/-- The code of a method, if it has any. -/
def body? (h : Hierarchy) (m : MethodId) : Option Body :=
  (h.method? m).bind (·.body)

/-- The direct superclass of a class. -/
def super? (h : Hierarchy) (c : ClassId) : Option ClassId :=
  (h.class? c).bind (·.super)

/-- Whether a class is an interface. -/
def isInterface (h : Hierarchy) (c : ClassId) : Bool :=
  ((h.class? c).map (·.isInterface)).getD false

/-- The members whose superclass is a given class. -/
def subclasses (h : Hierarchy) (c : ClassId) : List ClassId :=
  h.members.filter fun d => h.super? d == some c

/-- One entry for each mention of an interface in the interface list of a class. -/
def mentions (d : ClassDecl) (c : ClassId) : List ClassId :=
  (d.interfaces.filter (· == c)).map fun _ => d.id

/-- The members that are interfaces and extend a given interface. -/
def subinterfaces (h : Hierarchy) (c : ClassId) : List ClassId :=
  (h.classes.filter (·.isInterface)).flatMap (mentions · c)

/-- The members that are classes and implement a given interface. -/
def implementors (h : Hierarchy) (c : ClassId) : List ClassId :=
  (h.classes.filter (!·.isInterface)).flatMap (mentions · c)

/-- The direct subtypes that a search for call targets goes on to. -/
def subtypes (h : Hierarchy) (c : ClassId) : List ClassId :=
  if h.isInterface c then h.subinterfaces c ++ h.implementors c else h.subclasses c

/-- The direct supertypes of a class. -/
def parents (h : Hierarchy) (c : ClassId) : List ClassId :=
  ((h.class? c).map (·.parents)).getD []

/-- The identities of all declared classes. -/
def ids (h : Hierarchy) : List ClassId :=
  h.declared.map (·.id)

/-- Whether a class is among its own supertypes. -/
def isCyclic (h : Hierarchy) (c : ClassId) : Bool :=
  c ∈ Search.reach h.ids h.parents (h.parents c)

/-- The method that a signature written as a text stands for. -/
def resolve [Nesting] (h : Hierarchy) (signature : String) : Except ProgramFault Method :=
  match MethodId.read signature.toList with
  | .error e => .error (.malformed e)
  | .ok (owner, subsig) =>
    match h.member? owner with
    | none => .error (.unknownClassOf owner signature)
    | some c =>
      if !c.canLookUp subsig then .error .tooDeep
      else
        match c.method? subsig with
        | none => .error (.unknownMethod signature)
        | some m => .ok m

/-- The first concrete method of a subsignature on the superclass chain of a class, with at most
`fuel` classes looked at. -/
def dispatchWithin (h : Hierarchy) (s : Subsignature) : Nat → ClassId → Option Method
  | 0, _ => none
  | fuel + 1, c =>
    match (h.method? ⟨c, s⟩).filter (!·.isAbstract) with
    | some m => some m
    | none => (h.super? c).bind (h.dispatchWithin s fuel)

/-- The method that a call on an object of the class would run: the first concrete one on the
superclass chain. -/
def dispatch (h : Hierarchy) (c : ClassId) (s : Subsignature) : Option Method :=
  h.dispatchWithin s h.declared.length c

end Hierarchy

/-- A program: its classes, and its entry method as far as it has been chosen. -/
structure Program where
  hierarchy : Hierarchy
  main : Option MethodId

namespace Program

/-- The first static method named `main` that has a body. -/
def defaultMain? (p : Program) : Option MethodId :=
  (p.hierarchy.methods.find? fun m => m.isStatic && m.name == "main" && m.body.isSome).map (·.id)

/-- Settles the entry method: the chosen one, or else the default. -/
def settleMain (p : Program) : Program :=
  { p with main := p.main <|> p.defaultMain? }

/-- The entry method. -/
def main? (p : Program) : Option MethodId :=
  p.settleMain.main

/-- The methods that have a body, in the order of the classes. -/
def methodsWithBody (p : Program) : List MethodId :=
  (p.hierarchy.methods.filter (·.body.isSome)).map (·.id)

end Program

end TacFlow
