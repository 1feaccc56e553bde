import TacFlow.Session.Manager

/-!
# Descriptions

The short text that stands for a value where it is shown among others: the name of its kind, and in
brackets what tells it apart from others of that kind.
-/

namespace TacFlow

/-- A description: the name of a kind with the particulars in brackets. -/
def described (kind : String) (particulars : String) : String :=
  kind ++ "(" ++ particulars ++ ")"

/-- A list of names as it stands in a description. -/
def describedNames (names : List String) : String :=
  "[" ++ ", ".intercalate (names.map Text.quoted) ++ "]"

/-! ## Code -/

/-- The name of the kind of a type. -/
def Ty.kindName : Ty → String
  | primitive _ => "PrimitiveType"
  | named _ => "ClassType"
  | array _ => "ArrayType"

/-- The name of the kind of an expression. -/
def Expr.kindName : Expr → String
  | lit _ => "IntLiteral"
  | var _ => "Var"
  | binary _ _ _ => "BinaryExp"
  | alloc _ => "NewExp"
  | cast _ _ => "CastExp"
  | field _ _ => "InstanceFieldAccess"
  | staticField _ _ => "StaticFieldAccess"
  | element _ _ => "ArrayAccess"
  | call _ _ _ _ => "InvokeExp"

/-- The name of the kind of a statement. -/
def Stmt.kindName : Stmt → String
  | assign _ _ => "AssignStmt"
  | invoke _ _ => "Invoke"
  | branch _ _ => "If"
  | goto _ => "Goto"
  | switch _ _ _ => "SwitchStmt"
  | ret _ => "Return"
  | nop => "Nop"

/-- A statement with its position. -/
def Stmt.numbered (s : Stmt) (i : Nat) : String :=
  toString i ++ ": " ++ s.text

/-- The description of the statement at a position. -/
def Stmt.describe (s : Stmt) (i : Nat) : String :=
  s.kindName ++ "[" ++ s.numbered i ++ "]"

/-- The description of a variable. -/
def Var.describe (x : Var) : String :=
  described "Var" (x.name ++ ": " ++ x.type.text)

/-- The description of a body. -/
def Body.describe (b : Body) : String :=
  described "IR" (b.method.text ++ ", " ++ toString b.stmts.length ++ " stmts")

/-! ## Programs -/

/-- The description of a method. -/
def MethodId.describe (m : MethodId) : String :=
  described "JMethod" m.text

/-- The description of a class. -/
def ClassDecl.describe (c : ClassDecl) : String :=
  described "JClass" ((if c.isInterface then "interface " else "class ") ++ c.name)

/-- The description of a program. It shows the entry method only once that is settled. -/
def Program.describe (p : Program) : String :=
  let main := match p.main with
    | some m => m.text
    | none => "None"
  described "Program" (toString p.hierarchy.members.length ++ " classes, main=" ++ main)

/-! ## Facts -/

/-- The description of a lattice value. -/
def Value.describe (v : Value) : String :=
  described "Value" v.text

/-- The description of an environment. -/
def Env.describe (f : Env) : String :=
  described "CPFact" f.text

/-- The description of a set of names. -/
def describedSet (s : FinSet String) : String :=
  described "SetFact" (s.text id)

/-! ## Graphs -/

/-- The description of an edge of a control flow graph. -/
def Cfg.describeEdge (g : Cfg) (e : Edge) : String :=
  let constant := match e.constant with
    | some n => " " ++ toString n
    | none => ""
  described "CFGEdge" <| toString (g.body.number e.source) ++ " -> " ++
    toString (g.body.number e.target) ++ ", " ++ e.kind.name ++ constant

/-- The description of a control flow graph. -/
def Cfg.describe (g : Cfg) : String :=
  described "CFG" <| "method=" ++ Text.quoted g.body.method.text ++ ", nodes=" ++
    toString g.nodes.length ++ ", edges=" ++ toString g.edges.length

/-- The description of a call edge. -/
def CallEdge.describe (e : CallEdge) : String :=
  described "CallGraphEdge" (e.site.text ++ " -> " ++ e.callee.text ++ ", " ++ e.kind.label)

/-- The description of a call graph. -/
def CallGraph.describe (g : CallGraph) : String :=
  described "CallGraph" <| "reachable=" ++ toString g.reachable.length ++ ", edges=" ++
    toString g.edges.length

/-- The description of an edge between program points. -/
def Icfg.describeEdge (g : Icfg) (e : FlowEdge) : String :=
  "(" ++ g.nodeText e.source ++ ")--[" ++ e.kind.name ++ "]-->(" ++ g.nodeText e.target ++ ")"

/-- The description of an interprocedural control flow graph. -/
def Icfg.describe (g : Icfg) : String :=
  described "InterproceduralCFG" <| "methods=" ++ toString g.methods.length ++ ", nodes=" ++
    toString g.nodes.length

/-! ## Sessions -/

/-- The description of a plan. -/
def Plan.describe (p : Plan) : String :=
  described "AnalysisPlan" (describedNames (p.ids.map Analysis.name))

/-- The description of a manager. -/
def Manager.describe (m : Manager) : String :=
  described "AnalysisManager" <| m.program.describe ++ ", ran=" ++
    describedNames (m.finishedAnalyses.map Analysis.name)

end TacFlow
