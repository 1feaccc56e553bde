import TacFlow.Code.Body

/-!
# Call graphs

A call graph joins call sites to the methods they can call. Its methods and edges are listed in the
order in which they were found, each once.
-/

namespace TacFlow

/-- A call site: a statement of a method, by its position. -/
structure CallSite where
  index : Nat
  method : MethodId
  deriving DecidableEq, Repr

/-- The written form of a call site. -/
def CallSite.text (s : CallSite) : String :=
  s.method.text ++ "[" ++ toString s.index ++ "]"

/-- Whether a call site can be written. -/
def CallSite.isWritable [Nesting] (s : CallSite) : Bool :=
  s.method.isWritable

/-- An edge from a call site to one of its callees. -/
structure CallEdge where
  kind : CallKind
  site : CallSite
  callee : MethodId
  deriving DecidableEq, Repr

/-- Whether both ends of an edge can be written. -/
def CallEdge.isWritable [Nesting] (e : CallEdge) : Bool :=
  e.site.isWritable && e.callee.isWritable

/-- Entry methods, reachable methods and call edges. -/
structure CallGraph where
  entries : List MethodId
  reachable : List MethodId
  edges : List CallEdge

namespace CallGraph

/-- The call graph without methods. -/
def empty : CallGraph :=
  ⟨[], [], []⟩

/-- Adds an entry method. -/
def addEntry (g : CallGraph) (m : MethodId) : CallGraph :=
  if m ∈ g.entries then g else { g with entries := g.entries ++ [m] }

/-- Whether a method is reachable. -/
def contains (g : CallGraph) (m : MethodId) : Bool :=
  m ∈ g.reachable

/-- Makes a method reachable and tells whether it is new. -/
def addReachable (g : CallGraph) (m : MethodId) : CallGraph × Bool :=
  if m ∈ g.reachable then (g, false) else ({ g with reachable := g.reachable ++ [m] }, true)

/-- Adds an edge and tells whether it is new. -/
def addEdge (g : CallGraph) (e : CallEdge) : CallGraph × Bool :=
  if e ∈ g.edges then (g, false) else ({ g with edges := g.edges ++ [e] }, true)

/-- The edges that leave a call site. -/
def edgesOutOf (g : CallGraph) (s : CallSite) : List CallEdge :=
  g.edges.filter (·.site = s)

/-- The edges that lead to a method. -/
def edgesInto (g : CallGraph) (m : MethodId) : List CallEdge :=
  g.edges.filter (·.callee = m)

/-- The methods that a call site can call, each once. -/
def callees (g : CallGraph) (s : CallSite) : List MethodId :=
  ((g.edgesOutOf s).map (·.callee)).eraseDups

/-- The call sites that can call a method, each once. -/
def callers (g : CallGraph) (m : MethodId) : List CallSite :=
  ((g.edgesInto m).map (·.site)).eraseDups

/-! ## Graphviz -/

/-- What sets an edge of a kind apart in the drawing. -/
def edgeStyle : CallKind → String
  | .static => ""
  | .special => ", style=dashed"
  | .virtual => ", color=blue"
  | .interface => ", color=purple"

/-- The name of the node of a reachable method. -/
def nodeName? (g : CallGraph) (m : MethodId) : Option String :=
  (g.reachable.idxOf? m).map fun i => "M" ++ toString i

/-- The line of a reachable method. -/
def dotNode (g : CallGraph) (m : MethodId) (i : Nat) : String :=
  let style := if m ∈ g.entries then ", style=filled, fillcolor=\"#ccffcc\"" else ""
  "  M" ++ toString i ++ " [label=\"" ++ m.text.replace "\"" "\\\"" ++ "\"" ++ style ++ "];"

/-- The line of an edge; an edge with an end that is not reachable has none. -/
def dotEdge? (g : CallGraph) (e : CallEdge) : Option String := do
  let caller ← g.nodeName? e.site.method
  let callee ← g.nodeName? e.callee
  return "  " ++ caller ++ " -> " ++ callee ++ " [label=\"" ++ toString e.site.index ++ ": " ++
    e.kind.label ++ "\"" ++ edgeStyle e.kind ++ "];"

/-- The graph in the language of Graphviz; `none` if an edge has an end that is not reachable. An
empty title is left out. -/
def dot? (g : CallGraph) (title : String) : Option String := do
  let edges ← g.edges.mapM g.dotEdge?
  let titleLine := if title.isEmpty then [] else ["  label=\"" ++ title ++ "\";"]
  return "\n".intercalate <|
    ["digraph CallGraph \x7b", "  rankdir=TB;"] ++ titleLine ++
    ["  node [shape=box, fontname=\"Helvetica\", fontsize=10];"] ++
    (g.reachable.zipIdx.map fun (m, i) => g.dotNode m i) ++ edges ++ ["\x7d"]

end CallGraph

end TacFlow
