import TacFlow.Calls.HierarchyAnalysis
import TacFlow.Calls.Propagation
import TacFlow.DeadCode
import TacFlow.Program.Resolve
import TacFlow.Session.Plan

/-!
# Running plans

A manager runs plans on one program and keeps the results: those of the program analyses, and for
every method those of the method analyses. Method analyses run on all methods with a body, or, once
there is a call graph, on the reachable ones.
-/

namespace TacFlow

/-- Why something that was asked of a program cannot be done. -/
inductive Failure where
  | load (error : LoadError)
  | program (fault : ProgramFault)
  | plan (error : PlanError)
  | solve (error : SolveError)
  | noEntryMethod
  | notRun (id : String)
  | entryNotText (entry : Json)
  | entryUnreadable (signature : Json.Str)
  | entrySubsignature (part : Json.Str)
  | entryClass (name : String) (signature : Json.Str)
  | entryMethod (signature : Json.Str)
  | blankAnalysis
  | pathTooLong (path : String)
  | noResult
  /-- Something that has to be written or looked up is nested too deep. -/
  | tooDeep

namespace Failure

/-- The text of a failure. -/
def message : Failure → Json.Str
  | plan error => error.message
  | load error => .ofString error.message
  | program fault => .ofString fault.message
  | solve error => .ofString error.message
  | noEntryMethod => .ofString "no entry method: program has no main method"
  | notRun id => .ofString ("analysis " ++ Text.quoted id ++ " has not run")
  | entryNotText entry => .ofString ("no entry method can be looked up by " ++ entry.display)
  | entryUnreadable signature => .ofString ("malformed method signature: " ++ signature.quoted)
  | entrySubsignature part => .ofString ("malformed method subsignature: " ++ part.quoted)
  | entryClass name signature => .ofString ("unknown class " ++ name ++ " in ") ++ signature
  | entryMethod signature => .ofString "unknown method " ++ signature
  | blankAnalysis => .ofString "an analysis is asked for without a name"
  | pathTooLong path => .ofString ("no file can be looked up by " ++ Text.quoted path)
  | noResult => .ofString "there is no such result"
  | tooDeep => .ofString "a type or an expression is nested too deep"

/-- The part of a signature that a subsignature of `length` characters was read from: it stands in front
of the closing bracket and the blanks before that. -/
def subsignaturePart (signature : Json.Str) (length : Nat) : Json.Str :=
  let isBlank := fun x : Json.Symbol => Text.isBlank x.shown
  let inner := ((signature.symbols.reverse.dropWhile isBlank).drop 1).dropWhile isBlank
  ⟨(inner.take length).reverse⟩

/-- Why a signature that holds a lone surrogate chooses no entry method. It is read as its shown form
is, for the character that shows a surrogate belongs to no name either, but no method is declared with
one. -/
def ofStrayEntry [Nesting] (h : Hierarchy) (signature : Json.Str) : Failure :=
  match MethodId.read signature.shown with
  | .error (.subsignature part) => entrySubsignature (subsignaturePart signature part.length)
  | .error (.signature _) => entryUnreadable signature
  | .error .tooDeep => tooDeep
  | .ok (owner, _) =>
    if (h.member? owner).isSome then entryMethod signature else entryClass owner signature

end Failure

/-- The results stored for one method. A control flow graph is stored as the number of its making,
for its edges are given by the code. -/
structure MethodResults where
  graph : Option Nat
  constants : Option (Solution Point Env)
  live : Option (Solution Point (FinSet Var))
  dead : Option (List Nat)

/-- No results. -/
def MethodResults.none : MethodResults :=
  ⟨.none, .none, .none, .none⟩

/-- Whether there is a result of an analysis. -/
def MethodResults.has (r : MethodResults) : Analysis → Bool
  | .cfg => r.graph.isSome
  | .constprop => r.constants.isSome
  | .livevar => r.live.isSome
  | .deadcode => r.dead.isSome
  | _ => false

/-- The control flow graphs, by the number of their making, that a result rests on. -/
abbrev Graphs := List (MethodId × Nat)

/-- A program with the results of its analyses. -/
structure Manager where
  program : Program
  callGraph : Option CallGraph
  icfg : Option (Icfg × Graphs)
  interConstants : Option (Solution ProgramPoint Env × Graphs)
  methods : List (MethodId × MethodResults)
  graphsMade : Nat

namespace Manager

/-- A manager without results. -/
def ofProgram (p : Program) : Manager :=
  ⟨p, none, none, none, [], 0⟩

/-- The results of a method. -/
def results (m : Manager) (id : MethodId) : MethodResults :=
  ((m.methods.find? (·.1 = id)).map (·.2)).getD .none

/-- Replaces the results of a method. -/
def setResults (m : Manager) (id : MethodId) (r : MethodResults) : Manager :=
  { m with methods := m.methods.filter (·.1 ≠ id) ++ [(id, r)] }

/-- Forgets the results of a method. -/
def clearResults (m : Manager) (id : MethodId) : Manager :=
  m.setResults id .none

/-- The program analyses that have a result, in order. -/
def finishedAnalyses (m : Manager) : List Analysis :=
  (if m.callGraph.isSome then [.cha] else []) ++ (if m.icfg.isSome then [.icfg] else []) ++
    (if m.interConstants.isSome then [.interConstprop] else [])

/-- The methods that method analyses run on. -/
def analysedMethods (m : Manager) : List MethodId :=
  match m.callGraph with
  | some g => g.reachable.filter fun id => (m.program.hierarchy.body? id).isSome
  | none => m.program.methodsWithBody

/-- A computation that may fail; what it did to the manager before stays. -/
abbrev Run := ExceptT Failure (StateM Manager)

/-- Continues with the value, or fails. -/
def orFail {α ε : Type} (wrap : ε → Failure) : Except ε α → Run α
  | .ok a => pure a
  | .error e => throw (wrap e)

/-- The result of a part that may be missing. -/
def orMissing {α : Type} (failure : Failure) : Option α → Run α
  | some a => pure a
  | none => throw failure

/-- The method of a written signature. -/
def method [Nesting] (signature : String) : Run Method := do
  orFail .program ((← get).program.hierarchy.resolve signature)

/-- The code of a method. -/
def body (id : MethodId) : Run Body := do
  orMissing (.program (.noBody id)) ((← get).program.hierarchy.body? id)

/-! ## Method analyses -/

/-- Changes the results of a method. -/
def changeResults (id : MethodId) (f : MethodResults → MethodResults) : Run Unit :=
  modify fun m => m.setResults id (f (m.results id))

/-- Makes the control flow graph of a method if it is not there. -/
def graph (id : MethodId) : Run Cfg := do
  let b ← body id
  let m ← get
  if (m.results id).graph.isNone then
    changeResults id fun r => { r with graph := some m.graphsMade }
    modify fun m => { m with graphsMade := m.graphsMade + 1 }
  return Cfg.ofBody b

/-- Solves constant propagation on a method and stores the solution. -/
def solveConstants [Nesting] (id : MethodId) (solver : Option String) : Run (Solution Point Env) := do
  let g ← graph id
  let s ← orFail .solve (Constants.solve g solver)
  changeResults id fun r => { r with constants := some s }
  return s

/-- Solves liveness on a method and stores the solution. -/
def solveLiveness (id : MethodId) (solver : Option String) : Run (Solution Point (FinSet Var)) := do
  let g ← graph id
  let s ← orFail .solve (Liveness.solve g solver)
  changeResults id fun r => { r with live := some s }
  return s

/-- Detects the dead statements of a method. The solutions it rests on are made and stored if they
are not there; the answer is not stored. -/
def detectDeadCode [Nesting] (id : MethodId) (solver : Option String) : Run (List Nat) := do
  let g ← graph id
  let constants ← match ((← get).results id).constants with
    | some s => pure s
    | none => solveConstants id solver
  let live ← match ((← get).results id).live with
    | some s => pure s
    | none => solveLiveness id none
  return DeadCode.ofSolutions g constants live

/-- Runs a method analysis on one method and stores its result. -/
def runOnMethod [Nesting] (config : AnalysisConfig) (id : MethodId) : Run Unit := do
  match config.id with
  | .constprop => discard <| solveConstants id (config.text? "solver")
  | .livevar => discard <| solveLiveness id none
  | .deadcode =>
    let dead ← detectDeadCode id (config.text? "solver")
    changeResults id fun r => { r with dead := some dead }
  | _ => discard <| graph id

/-! ## Program analyses -/

/-- The entry method of a program analysis: the given one, or else the program's. The default is noted down
when it is settled, for which it must be possible to write it. -/
def entryMethod [Nesting] (entry : Option MethodId) : Run MethodId := do
  match entry with
  | some id => return id
  | none =>
    let before := (← get).program
    modify fun m => { m with program := m.program.settleMain }
    let main ← orMissing .noEntryMethod (← get).program.main
    if before.main.isNone && !main.isWritable then throw .tooDeep
    return main

/-- The method that the option `entry` names, if it names one. -/
def chosenEntry [Nesting] (config : AnalysisConfig) : Run (Option MethodId) :=
  match config.get? "entry" with
  | none => return none
  | some value =>
    if value.isVoid then return none
    else
      match value with
      | .str signature => do
        let stray := Failure.ofStrayEntry (← get).program.hierarchy signature
        return some (← method (← orMissing stray signature.text?)).id
      | other => throw (.entryNotText other)

/-- Builds the call graph. -/
def runCallGraph [Nesting] (config : AnalysisConfig) : Run Unit := do
  let entry ← entryMethod (← chosenEntry config)
  let g ← orMissing .tooDeep ((← get).program.hierarchy.buildCallGraph? entry)
  modify fun m => { m with callGraph := some g }

/-- The numbers of the control flow graphs of some methods. -/
def graphsOf (ids : List MethodId) : Run Graphs := do
  let m ← get
  return ids.filterMap fun id => (m.results id).graph.map (id, ·)

/-- Builds the interprocedural control flow graph, and the graphs of its methods as far as they are
not there. -/
def runIcfg : Run Unit := do
  let cg ← orMissing (.notRun Analysis.cha.name) (← get).callGraph
  let icfg := Icfg.ofCallGraph cg (← get).program.hierarchy.body?
  icfg.methods.forM fun id => discard <| graph id
  let graphs ← graphsOf icfg.methods
  modify fun m => { m with icfg := some (icfg, graphs) }

/-- Propagates constants across methods. -/
def runInterConstants [Nesting] : Run Unit := do
  let (icfg, graphs) ← orMissing (.notRun Analysis.icfg.name) (← get).icfg
  let s ← orFail .solve (InterConstants.solve icfg)
  modify fun m => { m with interConstants := some (s, graphs) }

/-- Runs one analysis of a plan. -/
def runAnalysis [Nesting] (config : AnalysisConfig) : Run Unit := do
  match config.id with
  | .cha => runCallGraph config
  | .icfg => runIcfg
  | .interConstprop => runInterConstants
  | _ => (← get).analysedMethods.forM (runOnMethod config)

/-- Runs the analyses of a plan in order. -/
def runPlan [Nesting] (p : Plan) : Run Unit :=
  p.configs.forM runAnalysis

/-- The current interprocedural graph with the stored solution. The solution has no facts for a
method whose control flow graph was made anew since. -/
def interSolution : Run (Icfg × Solution ProgramPoint Env) := do
  let (s, solved) ← orMissing (.notRun Analysis.interConstprop.name) (← get).interConstants
  let (icfg, graphs) ← orMissing (.notRun Analysis.icfg.name) (← get).icfg
  if graphs.all (solved.contains ·) then return (icfg, s) else throw .noResult

end Manager

end TacFlow
