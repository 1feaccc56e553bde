import TacFlow.Json.Reader

/-!
# Analysis plans

Which analyses to run, in which order and with which options. A plan is complete: every analysis
stands behind all those that it requires.
-/

namespace TacFlow

/-- The analyses that can be asked for. -/
inductive Analysis where
  | cfg | constprop | livevar | deadcode | cha | icfg | interConstprop
  deriving DecidableEq, Repr

namespace Analysis

/-- Every analysis. -/
def all : List Analysis :=
  [cfg, constprop, livevar, deadcode, cha, icfg, interConstprop]

/-- The name of an analysis in plans. -/
def name : Analysis → String
  | cfg => "cfg"
  | constprop => "constprop"
  | livevar => "livevar"
  | deadcode => "deadcode"
  | cha => "cha"
  | icfg => "icfg"
  | interConstprop => "inter-constprop"

/-- The analysis with a given name. -/
def ofName? (s : String) : Option Analysis :=
  all.find? (·.name == s)

/-- What an analysis requires directly. -/
def requires : Analysis → List Analysis
  | cfg | cha => []
  | constprop | livevar => [cfg]
  | deadcode => [cfg, constprop, livevar]
  | icfg => [cha]
  | interConstprop => [icfg]

/-- The names of the options that an analysis takes. -/
def options : Analysis → List String
  | constprop => ["solver"]
  | cha => ["entry"]
  | _ => []

/-- Whether an analysis runs on each method, or once on the whole program. -/
def perMethod : Analysis → Bool
  | cfg | constprop | livevar | deadcode => true
  | cha | icfg | interConstprop => false

/-- What an analysis requires, directly or through at most `depth - 1` others, each behind what it
requires itself. -/
def prerequisitesWithin : Nat → Analysis → List Analysis
  | 0, _ => []
  | depth + 1, a => a.requires.flatMap fun r => prerequisitesWithin depth r ++ [r]

/-- Everything that an analysis requires, each behind what it requires itself. No chain of
requirements is longer than two. -/
def prerequisites (a : Analysis) : List Analysis :=
  prerequisitesWithin 2 a

end Analysis

/-- Options of an analysis, by name. -/
abbrev Options := List (Json.Str × Json)

/-- Why a plan is refused. -/
inductive PlanError where
  | notAPlan
  | malformedEntry (entry : Json)
  | optionsNotObject (id : Json)
  | unknownAnalysis (id : Json)
  | unknownOptions (names : List Json.Str) (id : Analysis)
  | unknownSolver (solver : Json) (id : Analysis)
  | notJson (path : String)
  /-- The file is a document that the reader gives up on. -/
  | unread (path : String) (error : Json.ReadError)
  /-- An id that is an array or an object cannot be looked up. -/
  | unusableId (id : Json)
  /-- The table of options is none. -/
  | tableNotObject (table : Json)
  /-- Options that are neither an object nor a list of pairs. -/
  | optionsNotPairs (options : Json)
  /-- An item of a list of options that has not two parts. -/
  | unevenPair (item : Json)
  /-- An option whose name is no string. -/
  | unusableName (name : Json)

namespace PlanError

/-- Whether the error is a refusal of the plan, and not a breakdown over something that cannot even be
looked at. -/
def isRefusal : PlanError → Bool
  | notAPlan | malformedEntry _ | optionsNotObject _ | unknownAnalysis _ | unknownOptions _ _
  | unknownSolver _ _ | notJson _ => true
  | unread _ _ | unusableId _ | tableNotObject _ | optionsNotPairs _ | unevenPair _
  | unusableName _ => false

/-- The text of an error. The names of unknown options stand in it as they are given. -/
def message : PlanError → Json.Str
  | notAPlan => .ofString "plan must be an object with an \"analyses\" list"
  | malformedEntry entry => .ofString ("malformed plan entry: " ++ entry.display)
  | optionsNotObject id => .ofString ("options of " ++ id.display ++ " must be an object")
  | unknownAnalysis id =>
    .ofString ("unknown analysis " ++ id.display ++ " (known: " ++
      ", ".intercalate (Analysis.all.map Analysis.name) ++ ")")
  | unknownOptions names id =>
    .ofString "unknown option(s) " ++ .join (.ofString ", ") names ++
      .ofString (" for analysis " ++ Text.quoted id.name)
  | unknownSolver solver id =>
    .ofString ("unknown solver " ++ solver.display ++ " for analysis " ++ Text.quoted id.name)
  | notJson path => .ofString (path ++ ": invalid JSON")
  | unread path _ => .ofString (path ++ ": too large")
  | unusableId id => .ofString ("no analysis can be looked up by " ++ id.display)
  | tableNotObject table => .ofString ("no options can be looked up in " ++ table.display)
  | optionsNotPairs options => .ofString ("no options can be read from " ++ options.display)
  | unevenPair item => .ofString ("no pair of a name and a value: " ++ item.display)
  | unusableName name => .ofString ("no option can be named " ++ name.display)

end PlanError

/-- The analysis that a value names. -/
def Analysis.ofJson : Json → Except PlanError Analysis
  | .str name =>
    match name.text?.bind Analysis.ofName? with
    | some a => .ok a
    | none => .error (.unknownAnalysis (.str name))
  | .arr items => .error (.unusableId (.arr items))
  | .obj members => .error (.unusableId (.obj members))
  | id => .error (.unknownAnalysis id)

/-! ## Tables of options -/

namespace Options

/-- The name and the value that an item of a list of options gives: a list of the two, an object of two
names, or a string of two symbols. -/
def pairOf : Json → Except PlanError (Json × Json)
  | .arr [name, value] =>
    match name with
    | .arr _ | .obj _ => .error (.unusableName name)
    | _ => .ok (name, value)
  | .obj [(name, _), (value, _)] => .ok (.str name, .str value)
  | .str ⟨[name, value]⟩ => .ok (.str ⟨[name]⟩, .str ⟨[value]⟩)
  | .arr items => .error (.unevenPair (.arr items))
  | .obj members => .error (.unevenPair (.obj members))
  | .str s => .error (.unevenPair (.str s))
  | item => .error (.optionsNotPairs item)

/-- The names and values of options: the members of an object, or the items of a list. -/
def pairs : Json → Except PlanError (List (Json × Json))
  | .obj members => .ok (members.map fun m => (.str m.1, m.2))
  | .arr items => items.mapM pairOf
  | .str s => if s.isEmpty then .ok [] else .error (.unevenPair (.str s))
  | options => .error (.optionsNotPairs options)

/-- The options with the given names and values; the last value of a name counts. -/
def ofPairs (given : List (Json × Json)) : Except PlanError Options :=
  given.foldlM (fun options (name, value) =>
    match name with
    | .str s => .ok (Json.setMember options s value)
    | name => .error (.unusableName name)) []

/-- What a table of options holds for an id. -/
def lookup (table id : Json) : Except PlanError (List (Json × Json)) :=
  if table.isVoid then .ok []
  else
    match table, id with
    | .obj _, .arr items => .error (.unusableId (.arr items))
    | .obj _, .obj members => .error (.unusableId (.obj members))
    | .obj members, .str name =>
      match members.find? (·.1 = name) with
      | some m => pairs m.2
      | none => .ok []
    | .obj _, _ => .ok []
    | table, _ => .error (.tableNotObject table)

end Options

/-- One analysis of a plan with its options. -/
structure AnalysisConfig where
  id : Analysis
  options : Options

namespace AnalysisConfig

/-- The names of the solvers that a plan can choose. -/
def solvers : List String :=
  ["worklist", "iterative"]

/-- Whether a value can be the option `solver`: absent, or the name of a solver. -/
def isSolver : Json → Bool
  | .null => true
  | .str s => solvers.any fun name => Json.Str.ofString name = s
  | _ => false

/-- Checks the options of an analysis: first their names, then the solver. -/
def check (id : Analysis) (options : Options) : Except PlanError AnalysisConfig :=
  let unknown := (options.map (·.1)).filter fun name =>
    !id.options.any fun known => Json.Str.ofString known = name
  let solver := (Json.member? options "solver").getD .null
  if unknown ≠ [] then
    .error (.unknownOptions (unknown.mergeSort Json.Str.le) id)
  else if !isSolver solver then .error (.unknownSolver solver id)
  else .ok ⟨id, options⟩

/-- The configuration for an id as it stands in a plan. -/
def ofId (id : Json) (options : Options) : Except PlanError AnalysisConfig := do
  check (← Analysis.ofJson id) options

/-- The value of an option. -/
def get? (c : AnalysisConfig) (option : String) : Option Json :=
  Json.member? c.options option

/-- The value of an option that is a text. -/
def text? (c : AnalysisConfig) (option : String) : Option String :=
  match c.get? option with
  | some (.str s) => s.text?
  | _ => none

end AnalysisConfig

/-- Configurations of different analyses, in the order in which they run. -/
structure Plan where
  configs : List AnalysisConfig

namespace Plan

/-- The plan without analyses. -/
def empty : Plan :=
  ⟨[]⟩

/-- The analyses of a plan in order. -/
def ids (p : Plan) : List Analysis :=
  p.configs.map (·.id)

/-- Whether an analysis is in the plan. -/
def contains (p : Plan) (a : Analysis) : Bool :=
  a ∈ p.ids

/-- The configuration of an analysis. -/
def get? (p : Plan) (a : Analysis) : Option AnalysisConfig :=
  p.configs.find? (·.id = a)

/-- Sets the configuration of an analysis. One that is in the plan keeps its place. -/
def put (p : Plan) (c : AnalysisConfig) : Plan :=
  if p.contains c.id then ⟨p.configs.map fun d => if d.id = c.id then c else d⟩
  else ⟨p.configs ++ [c]⟩

/-- Adds an analysis without options unless it is in the plan. -/
def require (p : Plan) (a : Analysis) : Plan :=
  if p.contains a then p else p.put ⟨a, []⟩

/-- Adds a configuration behind everything that it requires. -/
def add (p : Plan) (c : AnalysisConfig) : Plan :=
  (c.id.prerequisites.foldl require p).put c

/-- The plan of a list of configurations. -/
def ofConfigs (configs : List AnalysisConfig) : Plan :=
  configs.foldl add empty

/-- The plan of a list of ids, with the options that a table holds for them. -/
def ofIds (ids : List Json) (table : Json) : Except PlanError Plan := do
  return ofConfigs <| ← ids.mapM fun id => do
    let given ← Options.lookup table id
    let a ← Analysis.ofJson id
    AnalysisConfig.check a (← Options.ofPairs given)

/-- The configuration of one entry of a written plan: an id, or an object with an id and options. -/
def readEntry : Json → Except PlanError AnalysisConfig
  | .str name => AnalysisConfig.ofId (.str name) []
  | .obj members =>
    match Json.member? members "id", Json.member? members "options" with
    | none, _ => .error (.malformedEntry (.obj members))
    | some id, none => AnalysisConfig.ofId id []
    | some id, some (.obj options) => AnalysisConfig.ofId id options
    | some id, some _ => .error (.optionsNotObject id)
  | entry => .error (.malformedEntry entry)

/-- Reads a decoded plan. -/
def ofJson : Json → Except PlanError Plan
  | .obj members =>
    match Json.member? members "analyses" with
    | some (.arr entries) => do return ofConfigs (← entries.mapM readEntry)
    | _ => .error .notAPlan
  | _ => .error .notAPlan

/-- Reads a plan from the text of a file. -/
def ofText [Nesting] (path : String) (text : String) : Except PlanError Plan :=
  match Json.parse text with
  | .ok data => ofJson data
  | .error .malformed => .error (.notJson path)
  | .error e => .error (.unread path e)

end Plan

end TacFlow
