import TacFlow.CommandLine.Arguments
import TacFlow.CommandLine.Files
import TacFlow.Session.Report

/-!
# One run of the program

From the arguments and the files to everything that the program answers: its output, what it logs,
and its exit status. The status is 1 if the program or the plan is refused, and 2 if the arguments
are wrong or a file is missing.
-/

namespace TacFlow

/-- How much a logged message matters. -/
inductive Severity where
  | warning | error
  deriving DecidableEq, Repr

/-- The name of a severity, cut to five letters. -/
def Severity.name : Severity → String
  | warning => "WARNI"
  | error => "ERROR"

/-- A logged message with the part of the program that it comes from. -/
structure LogLine where
  severity : Severity
  logger : String
  message : String

/-- The written form of a logged message. -/
def LogLine.text (l : LogLine) : String :=
  "[" ++ l.severity.name ++ "] " ++ l.logger ++ ": " ++ l.message

/-- The first line of the written form. The message can go on for more where it holds the name of a file. -/
def LogLine.firstLine (l : LogLine) : String :=
  String.ofList ((Text.splitLines l.text.toList).headD [])

/-- What a run answers. -/
structure Outcome where
  status : Nat
  output : String
  failure : Option Failure
  log : List LogLine

namespace Outcome

/-- The name of the program. -/
def programName : String :=
  "jflow"

/-- The version of the program. -/
def version : String :=
  "0.1.0"

/-- The answer to arguments that ask for no analysis. -/
def ofStop : Arguments.Stop → Outcome
  | .usage => ⟨2, "", none, []⟩
  | .help => ⟨0, "", none, []⟩
  | .version => ⟨0, programName ++ " " ++ version ++ "\n", none, []⟩

/-- The answer if a file is missing. -/
def missing (kind path : String) : Outcome :=
  ⟨2, "", none, [⟨.error, programName, kind ++ " file not found: " ++ path⟩]⟩

/-- The answer if the request fails. -/
def failed (failure : Failure) (log : List LogLine) : Outcome :=
  ⟨1, "", some failure, log⟩

/-- The message about the failure. -/
def failureText (o : Outcome) : Option Json.Str :=
  o.failure.map fun f => .ofString (programName ++ ": error: ") ++ f.message

/-! ## Plans -/

/-- Adds an analysis that is asked for by name unless the plan has it. -/
def addRequested (p : Plan) (a : Analysis) : Plan :=
  if p.contains a then p else p.add ⟨a, []⟩

/-- Gives constant propagation the chosen solver if it is in the plan. -/
def chooseSolver (p : Plan) (solver : Option String) : Plan :=
  match solver, p.get? .constprop with
  | some s, some c => p.add ⟨.constprop, Json.setMember c.options (.ofString "solver") (.str (.ofString s))⟩
  | _, _ => p

/-- The plan of a request: the written plan, the analyses asked for by name, and constant propagation
if there is nothing else. -/
def planFor (r : Arguments.Request) (written : Plan) : Plan :=
  let p := r.analyses.foldl addRequested written
  let p := if p.configs.isEmpty then p.add ⟨.constprop, []⟩ else p
  chooseSolver p r.solver

/-- The analyses that are reported: those asked for by name, or else those of the plan but for the
mere intermediate ones. -/
def reported (r : Arguments.Request) (p : Plan) : List Analysis :=
  if r.analyses.isEmpty then
    p.ids.filter fun a => a ≠ .cfg && a ≠ .livevar && a ≠ .icfg
  else r.analyses

/-! ## Runs -/

/-- The warnings about the call graph of a manager. -/
def warnings (m : Manager) : List LogLine :=
  match m.callGraph with
  | some g => (m.program.hierarchy.bodiless g).map fun id =>
      ⟨.warning, programName ++ ".callgraph", Hierarchy.bodilessWarning id⟩
  | none => []

/-- The verbosity from which on the log is detailed. -/
def detailed : Nat := 2

/-- Reports on a finished run. -/
def ofFinished [Nesting] (r : Arguments.Request) (plan : Plan) (m : Manager) : Outcome :=
  match m.report (reported r plan) r.draw with
  | .error failure => failed failure (warnings m)
  | .ok text =>
    if m.canReport (reported r plan) r.draw then ⟨0, text, none, warnings m⟩
    else failed .tooDeep (warnings m)

/-- Runs a plan on a program and reports. The run fails if the log or the report cannot be written. -/
def ofProgram [Nesting] (r : Arguments.Request) (plan : Plan) (program : Program) : Outcome :=
  let (result, m) := (Manager.runPlan plan).run.run (Manager.ofProgram program)
  if detailed ≤ r.verbosity && !m.canLog then failed .tooDeep (warnings m)
  else
    match result with
    | .ok () => ofFinished r plan m
    | .error failure => failed failure (warnings m)

/-- The entry method that is asked for, if it is given as a text. -/
def entryText (r : Arguments.Request) : Option String :=
  r.entry.bind Arguments.Given.text?

/-- Reads a program from a file and runs a plan on it. A blank entry method fails once the program is
read. -/
def ofProgramText [Nesting] (r : Arguments.Request) (plan : Plan) (path text : String) : Outcome :=
  match Program.ofFile path text (entryText r) with
  | .error e => failed (.load e) []
  | .ok program =>
    if r.entry = some .blank then failed (.entryNotText (.arr [])) [] else ofProgram r plan program

/-- Completes a written plan and runs it. -/
def ofWritten [Nesting] (r : Arguments.Request) (written : Plan) (path text : String) : Outcome :=
  if r.hasBlankAnalysis then failed .blankAnalysis []
  else ofProgramText r (planFor r written) path text

/-- Goes on with the text of the file at a path, if there is one. -/
def withFile (find : String → Path.Found) (kind path : String) (next : String → Outcome) : Outcome :=
  match find (Path.normal path) with
  | .file text => next text
  | .tooLong => failed (.pathTooLong path) []
  | _ => missing kind path

/-- The answer to a request, given the text of the program. -/
def ofRequest [Nesting] (find : String → Path.Found) (r : Arguments.Request) (path text : String) : Outcome :=
  match r.plan.filter (!·.isEmpty) with
  | none => ofWritten r .empty path text
  | some planPath =>
    withFile find "plan" planPath fun planText =>
      match Plan.ofText (Path.normal planPath) planText with
      | .ok written => ofWritten r written path text
      | .error e => failed (.plan e) []

/-- The answer to the arguments; `find` tells what stands at a normal path. -/
def ofArguments [Nesting] (find : String → Path.Found) (args : List String) : Outcome :=
  match Arguments.read args with
  | .error stop => ofStop stop
  | .ok r =>
    let path := Path.normal (r.program.getD "")
    withFile find "program" path (ofRequest find r path)

/-- The paths of the files that the answer to the arguments depends on. -/
def paths (args : List String) : List String :=
  match Arguments.read args with
  | .error _ => []
  | .ok r => (r.program.toList ++ r.plan.toList).map Path.normal

end Outcome

end TacFlow
