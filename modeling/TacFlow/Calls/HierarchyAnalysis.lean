import TacFlow.Calls.Graph
import TacFlow.Program.Hierarchy

/-!
# Class hierarchy analysis

Builds a call graph from the declared types alone. A virtual or interface call can run whatever a
call dispatches to on the referenced class or on any of its subtypes. A call without a target
contributes no edge.
-/

namespace TacFlow

namespace Hierarchy

/-- The class and its subtypes, in breadth-first order. -/
def withSubtypes (h : Hierarchy) (c : ClassId) : List ClassId :=
  Search.reach h.ids h.subtypes [c]

/-- The methods that a call can run: the declared method for a static call, one dispatch for a
special call, and the dispatches on all subtypes for the others. -/
def callTargets (h : Hierarchy) (kind : CallKind) (target : MethodId) : List MethodId :=
  match kind with
  | .static => ((h.method? target).map (·.id)).toList
  | .special => ((h.dispatch target.owner target.subsig).map (·.id)).toList
  | .virtual | .interface =>
    ((h.withSubtypes target.owner).filterMap fun c => (h.dispatch c target.subsig).map (·.id)).eraseDups

/-- The call edges out of a method: one for each target of each call in its body. -/
def callEdges (h : Hierarchy) (m : MethodId) : List CallEdge :=
  match h.body? m with
  | none => []
  | some b => b.calls.flatMap fun (i, c) =>
      (h.callTargets c.kind c.target).map fun t => ⟨c.kind, ⟨i, m⟩, t⟩

/-- The methods that a method can call. -/
def calledBy (h : Hierarchy) (m : MethodId) : List MethodId :=
  (h.callEdges m).map (·.callee)

/-- The call graph of everything that can be called from an entry method. -/
def callGraph (h : Hierarchy) (entry : MethodId) : CallGraph :=
  let reachable := Search.reach (h.declaredMethods.map (·.id)) h.calledBy [entry]
  ⟨[entry], reachable, reachable.flatMap h.callEdges⟩

/-- The call sites in a method. -/
def callSites (h : Hierarchy) (m : MethodId) : List CallSite :=
  match h.body? m with
  | none => []
  | some b => b.calls.map fun (i, _) => ⟨i, m⟩

/-- The reachable methods that have no body. The analysis cannot look into them and warns. -/
def bodiless (h : Hierarchy) (g : CallGraph) : List MethodId :=
  g.reachable.filter fun m => (h.body? m).isNone

/-- The warning about a reachable method without a body. -/
def bodilessWarning (m : MethodId) : String :=
  "Reachable method " ++ m.text ++ " has no body"

/-! ## Limits of nesting -/

/-- Some classes with all their superclasses. -/
def withSuperclasses (h : Hierarchy) (cs : List ClassId) : List ClassId :=
  Search.reach h.ids (fun c => (h.super? c).toList) cs

/-- The classes that are asked for a method to find the targets of a call. -/
def askedClasses (h : Hierarchy) (kind : CallKind) (owner : ClassId) : List ClassId :=
  match kind with
  | .static => [owner]
  | .special => h.withSuperclasses [owner]
  | .virtual | .interface => h.withSuperclasses (h.withSubtypes owner)

/-- Whether the targets of a call can be found: each class that is asked can look its method up. -/
def canFindTargets [Nesting] (h : Hierarchy) (kind : CallKind) (target : MethodId) : Bool :=
  target.subsig.isShallow || ((h.askedClasses kind target.owner).filterMap h.class?).all
    (·.canLookUp target.subsig)

/-- Finds the methods that a call can run, unless its subsignature is nested too deep for a class that is
asked. -/
def findTargets? [Nesting] (h : Hierarchy) (kind : CallKind) (target : MethodId) : Option (List MethodId) :=
  if h.canFindTargets kind target then some (h.callTargets kind target) else none

/-- Whether the analysis of a method comes to its end: the targets of its calls can be found, or, if it
has no body, the warning can be written. -/
def canExplore [Nesting] (h : Hierarchy) (m : MethodId) : Bool :=
  match h.body? m with
  | none => m.isWritable
  | some b => b.calls.all fun (_, c) => h.canFindTargets c.kind c.target

/-- Builds the call graph from an entry method, unless the analysis of a reachable method does not come to
its end. -/
def buildCallGraph? [Nesting] (h : Hierarchy) (entry : MethodId) : Option CallGraph :=
  let g := h.callGraph entry
  if g.reachable.all h.canExplore then some g else none

end Hierarchy

end TacFlow
