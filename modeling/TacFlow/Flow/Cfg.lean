import TacFlow.Code.Body
import TacFlow.Search

/-!
# Control flow graphs

The control flow graph of a method body has the points of the body as nodes. Every return leads to
the exit, and a statement that no path reaches stays in the graph.
-/

namespace TacFlow

/-- What an edge stands for. -/
inductive EdgeKind where
  | entry | fallThrough | goto | ifTrue | ifFalse | switchCase | switchDefault | ret
  deriving DecidableEq, Repr

namespace EdgeKind

/-- Every kind of edge. -/
def all : List EdgeKind :=
  [entry, fallThrough, goto, ifTrue, ifFalse, switchCase, switchDefault, ret]

/-- The name of a kind. -/
def name : EdgeKind → String
  | entry => "entry"
  | fallThrough => "fall-through"
  | goto => "goto"
  | ifTrue => "if-true"
  | ifFalse => "if-false"
  | switchCase => "switch-case"
  | switchDefault => "switch-default"
  | ret => "return"

/-- The kind with a given name. -/
def ofName? (s : String) : Option EdgeKind :=
  all.find? (·.name == s)

end EdgeKind

/-- A directed edge. The edge of a case carries the constant of the case. -/
structure Edge where
  source : Point
  target : Point
  kind : EdgeKind
  constant : Option Int
  deriving DecidableEq, Repr

/-- The control flow graph of a method body. Edges stand in the order in which they were made. -/
structure Cfg where
  body : Body
  edges : List Edge

namespace Cfg

/-- The ways out of a statement: an edge for each place that control can go to, and nothing for a jump
that lacks its target. -/
def exitsOf (b : Body) (i : Nat) : Stmt → List (Option Edge)
  | .ret _ => [some ⟨.stmt i, .exit, .ret, none⟩]
  | .goto target => [target.map fun t => ⟨.stmt i, .stmt t, .goto, none⟩]
  | .branch _ target =>
    [target.map fun t => ⟨.stmt i, .stmt t, .ifTrue, none⟩,
      some ⟨.stmt i, b.following i, .ifFalse, none⟩]
  | .switch _ cases default =>
    (cases.map fun (n, t) => some ⟨.stmt i, .stmt t, .switchCase, some n⟩) ++
      [default.map fun t => ⟨.stmt i, .stmt t, .switchDefault, none⟩]
  | .assign _ _ | .invoke _ _ | .nop => [some ⟨.stmt i, b.following i, .fallThrough, none⟩]

/-- The edges that leave a statement. -/
def edgesFrom (b : Body) (i : Nat) (s : Stmt) : List Edge :=
  (exitsOf b i s).filterMap id

/-- The edge into the body. -/
def entryEdge (b : Body) : Edge :=
  ⟨.entry, if b.stmts.isEmpty then .exit else .stmt 0, .entry, none⟩

/-- The control flow graph of a body. -/
def ofBody (b : Body) : Cfg where
  body := b
  edges := entryEdge b :: b.stmts.zipIdx.flatMap fun (s, i) => edgesFrom b i s

/-- Adds an edge behind the others. -/
def addEdge (g : Cfg) (e : Edge) : Cfg :=
  { g with edges := g.edges ++ [e] }

/-- The nodes in order. -/
def nodes (g : Cfg) : List Point :=
  g.body.points

/-- The edges that leave a node. -/
def outEdges (g : Cfg) (p : Point) : List Edge :=
  g.edges.filter (·.source = p)

/-- The edges that were added to those of the body. -/
def addedEdges (g : Cfg) : List Edge :=
  g.edges.drop (ofBody g.body).edges.length

/-- The ways out of a node: those that the body gives it, then the added edges. -/
def exits (g : Cfg) (p : Point) : List (Option Edge) :=
  match p, g.body.at? p with
  | .stmt i, some s => exitsOf g.body i s ++ (g.addedEdges.filter (·.source = p)).map some
  | _, _ => (g.outEdges p).map some

/-- The pairs of equal edges among the ways out of all nodes, by their positions. -/
def equalExits (g : Cfg) : List (Nat × Nat) :=
  let all := (g.nodes.flatMap g.exits).zipIdx
  all.flatMap fun (e, i) =>
    (all.filter fun (d, j) => e.isSome && i < j && d = e).map fun (_, j) => (i, j)

/-- The edges that lead to a node. -/
def inEdges (g : Cfg) (p : Point) : List Edge :=
  g.edges.filter (·.target = p)

/-- The targets of the edges that leave a node. -/
def succs (g : Cfg) (p : Point) : List Point :=
  (g.outEdges p).map (·.target)

/-- The sources of the edges that lead to a node. -/
def preds (g : Cfg) (p : Point) : List Point :=
  (g.inEdges p).map (·.source)

/-- The nodes that a path from the start leads to, the start included, in the order of the nodes. -/
def reachableFrom (g : Cfg) (start : Point) : List Point :=
  let found := Search.reach g.nodes g.succs [start]
  g.nodes.filter (· ∈ found)

/-! ## Graphviz -/

/-- Quotes inside a label are escaped. -/
def escapeLabel (s : String) : String :=
  s.replace "\"" "\\\""

/-- The line of a node. -/
def dotNode (g : Cfg) (p : Point) : String :=
  let (label, color) := match p, g.body.at? p with
    | .entry, _ => ("ENTRY", ", style=filled, fillcolor=\"#ccffcc\"")
    | .exit, _ => ("EXIT", ", style=filled, fillcolor=\"#ffcccc\"")
    | .stmt i, some s => (toString i ++ ": " ++ s.text, "")
    | .stmt i, none => (toString i, "")
  "  S" ++ toString (g.body.number p + 1) ++ " [label=\"" ++ escapeLabel label ++ "\"" ++ color ++ "];"

/-- The line of an edge. -/
def dotEdge (g : Cfg) (e : Edge) : String :=
  let label := match e.constant with
    | some n => e.kind.name ++ ": " ++ toString n
    | none => e.kind.name
  let style := match e.kind with
    | .ifTrue => ", color=green, fontcolor=green"
    | .ifFalse => ", color=red, fontcolor=red"
    | _ => ""
  "  S" ++ toString (g.body.number e.source + 1) ++ " -> S" ++
    toString (g.body.number e.target + 1) ++ " [label=\"" ++ label ++ "\"" ++ style ++ "];"

/-- The line of a title; an empty title has none. -/
def dotTitle (title : String) : List String :=
  if title.isEmpty then [] else ["  label=\"" ++ title ++ "\";"]

/-- The graph in the language of Graphviz. -/
def dot (g : Cfg) (title : String) : String :=
  "\n".intercalate <|
    ["digraph CFG \x7b"] ++ dotTitle title ++
    ["  node [shape=box, fontname=monospace, fontsize=10];"] ++ g.nodes.map g.dotNode ++
    (g.nodes.flatMap fun p => (g.outEdges p).map g.dotEdge) ++ ["\x7d"]

end Cfg

end TacFlow
