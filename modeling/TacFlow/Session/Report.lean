import TacFlow.Describe

/-!
# Reports

What is printed of the results of a manager. Every analysis has its own section, and in a section
the methods are sorted by signature.
-/

namespace TacFlow

namespace Report

/-- Lines, each with its end. -/
def lines (ls : List String) : String :=
  String.join (ls.map (· ++ "\n"))

/-- The heading of the section of an analysis. -/
def heading (a : Analysis) : String :=
  "== " ++ a.name ++ " =="

/-- Methods sorted by signature. -/
def sorted (methods : List MethodId) : List MethodId :=
  methods.mergeSort fun m n => m.text ≤ n.text

/-- What a report needs; it fails where that is not there. -/
def found {α : Type} (failure : Failure) : Option α → Except Failure α
  | some a => .ok a
  | none => .error failure

/-- The code of a method. -/
def body (h : Hierarchy) (id : MethodId) : Except Failure Body :=
  found (.program (.noBody id)) (h.body? id)

/-- The statements of a method, each with the fact behind it. -/
def factLines (b : Body) (fact : Point → Option Env) : Except Failure (List String) := do
  let shown ← b.stmts.zipIdx.mapM fun (s, i) => do
    return "  " ++ s.numbered i ++ "  " ++ (← found .noResult (fact (.stmt i))).text
  return b.method.text :: shown

/-- The section of an analysis that has a fact behind every statement. -/
def facts (h : Hierarchy) (a : Analysis) (methods : List MethodId)
    (fact : MethodId → Except Failure (Point → Option Env)) : Except Failure (List String) := do
  let parts ← (sorted methods).mapM fun id => do factLines (← body h id) (← fact id)
  return heading a :: parts.flatten

/-- The dead statements of one method. -/
def deadLines (b : Body) (dead : List Nat) : List String :=
  (b.method.text ++ ": " ++ toString dead.length ++ " dead") ::
    dead.filterMap fun i => b.stmts[i]?.map fun s => "  " ++ s.numbered i

/-- The section of dead code detection. -/
def deadCode (m : Manager) : Except Failure (List String) := do
  let parts ← (sorted m.analysedMethods).mapM fun id => do
    return deadLines (← body m.program.hierarchy id) (← found .noResult (m.results id).dead)
  return heading .deadcode :: parts.flatten

/-- The line of a call edge: the call site with its statement, and the callee. -/
def callLine (h : Hierarchy) (e : CallEdge) : String :=
  let stmt := match (h.body? e.site.method).bind (·.stmts[e.site.index]?) with
    | some s => s.text
    | none => ""
  "  " ++ e.site.method.text ++ "[" ++ toString e.site.index ++ ": " ++ stmt ++ "] -> " ++
    e.callee.text ++ " [" ++ e.kind.label ++ "]"

/-- The section of a call graph. -/
def callGraph (h : Hierarchy) (g : CallGraph) : List String :=
  [heading .cha, "reachable methods:"] ++ (g.reachable.map fun m => "  " ++ m.text) ++
    ["call edges:"] ++ g.edges.map (callLine h)

/-- The control flow graphs of the analysed methods in the language of Graphviz. -/
def drawings (m : Manager) : Except Failure (List String) :=
  (sorted m.analysedMethods).mapM fun id => do
    let b ← body m.program.hierarchy id
    discard <| found .noResult (m.results id).graph
    return (Cfg.ofBody b).dot ""

/-- The section of one analysis. Drawings are made on request only, and the other analyses that have
no section of their own print nothing. -/
def linesOf (m : Manager) (draw : Bool) : Analysis → Except Failure (List String)
  | .constprop =>
    facts m.program.hierarchy .constprop m.analysedMethods fun id => do
      return (← found .noResult (m.results id).constants).after.get?
  | .deadcode => deadCode m
  | .cha => do
    let g ← found (.notRun Analysis.cha.name) m.callGraph
    let drawing ← if draw then (fun d => [d]) <$> found .noResult (g.dot? "") else pure []
    return callGraph m.program.hierarchy g ++ drawing
  | .interConstprop => do
    let (g, _) ← found (.notRun Analysis.icfg.name) m.icfg
    let (s, _) ← found (.notRun Analysis.interConstprop.name) m.interConstants
    facts m.program.hierarchy .interConstprop g.methods fun id => .ok fun p => s.after.get? ⟨p, id⟩
  | .cfg => if draw then drawings m else .ok []
  | .livevar | .icfg => .ok []

/-! ## Limits of nesting -/

/-- The bodies of some methods. -/
def bodies (h : Hierarchy) (methods : List MethodId) : List Body :=
  methods.filterMap h.body?

/-- Whether the signatures and statements of some methods can be written. -/
def canList [Nesting] (h : Hierarchy) (methods : List MethodId) : Bool :=
  methods.all (·.isWritable) && (bodies h methods).all Body.isWritable

/-- Whether the statements at some positions of a body can be written. -/
def canListAt [Nesting] (b : Body) (positions : List Nat) : Bool :=
  (positions.filterMap fun i => b.stmts[i]?).all Stmt.isWritable

/-- Whether the dead statements can be written, and the signatures of all analysed methods. -/
def canListDead [Nesting] (m : Manager) : Bool :=
  m.analysedMethods.all (·.isWritable) && (bodies m.program.hierarchy m.analysedMethods).all fun b =>
    canListAt b ((m.results b.method).dead.getD [])

/-- Whether the line of a call edge can be written. -/
def canWriteCall [Nesting] (h : Hierarchy) (e : CallEdge) : Bool :=
  e.isWritable && (h.body? e.site.method).all fun b => canListAt b [e.site.index]

/-- Whether the section of an analysis can be written. -/
def canWrite [Nesting] (m : Manager) (draw : Bool) : Analysis → Bool
  | .constprop => canList m.program.hierarchy m.analysedMethods
  | .deadcode => canListDead m
  | .cha => m.callGraph.all fun g =>
      g.reachable.all (·.isWritable) && g.edges.all (canWriteCall m.program.hierarchy)
  | .interConstprop => m.icfg.all fun (g, _) => canList m.program.hierarchy g.methods
  | .cfg => !draw || canList m.program.hierarchy m.analysedMethods
  | .livevar | .icfg => true

/-- Whether the calls without a target in a method can be written. -/
def canWriteUnresolved [Nesting] (h : Hierarchy) (id : MethodId) : Bool :=
  (h.body? id).all fun b => b.calls.all fun (i, c) =>
    !(h.callTargets c.kind c.target).isEmpty || (id.isWritable && canListAt b [i])

end Report

/-- Whether a detailed log of what was done can be written: it names each method that has a control flow
graph, the entry of the call graph, and the calls without a target. -/
def Manager.canLog [Nesting] (m : Manager) : Bool :=
  (m.methods.all fun (id, r) => r.graph.isNone || id.isWritable) &&
    m.callGraph.all fun g => g.entries.all (·.isWritable) &&
      g.reachable.all (Report.canWriteUnresolved m.program.hierarchy)

/-- Whether the report on some analyses can be written. -/
def Manager.canReport [Nesting] (m : Manager) (requested : List Analysis) (draw : Bool) : Bool :=
  requested.all (Report.canWrite m draw)

/-- The report on some analyses, in the order in which they are asked for. It fails if a result that it
has to show is missing. -/
def Manager.report (m : Manager) (requested : List Analysis) (draw : Bool) : Except Failure String := do
  return Report.lines (← requested.mapM (Report.linesOf m draw)).flatten

end TacFlow
