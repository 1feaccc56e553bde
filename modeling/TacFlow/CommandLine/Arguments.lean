import TacFlow.Session.Plan
import TacFlow.Text.Class

/-!
# Command line arguments

Options may stand anywhere among the arguments and may be shortened as long as they stay
unambiguous. A value follows its option, or is attached to it: behind an equals sign, or behind the
letter of a short option. Behind two dashes every argument is an operand.
-/

namespace TacFlow.Arguments

/-- The options. -/
inductive Flag where
  | help | analysis | plan | entry | solver | dot | verbose | version
  deriving DecidableEq, Repr

/-- The spellings of the options. -/
def spellings : List (String × Flag) :=
  [("-h", .help), ("--help", .help), ("-a", .analysis), ("--analysis", .analysis),
    ("--plan", .plan), ("--entry", .entry), ("--solver", .solver), ("--dot", .dot),
    ("-v", .verbose), ("--verbose", .verbose), ("--version", .version)]

namespace Flag

/-- The option with a given spelling. -/
def ofSpelling? (cs : List Char) : Option Flag :=
  (spellings.find? (·.1.toList = cs)).map (·.2)

/-- Whether an option takes a value. -/
def takesValue : Flag → Bool
  | analysis | plan | entry | solver => true
  | help | dot | verbose | version => false

/-- The options that have a long spelling with the given beginning. -/
def ofBeginning (cs : List Char) : List Flag :=
  (spellings.filter fun s => cs.isPrefixOf s.1.toList).map (·.2)

end Flag

/-- What an argument is by itself. An option comes with the text that is attached to it: behind an equals
sign, or behind the letter of a short option. -/
inductive Token where
  | operand (text : List Char)
  | separator
  | shortOption (flag : Flag) (attached : Option (List Char))
  | longOption (flag : Flag) (attached : Option (List Char))
  | unknownOption
  deriving DecidableEq

/-- Why there is nothing to run. -/
inductive Stop where
  | usage | help | version
  deriving DecidableEq

/-! ## Classification -/

/-- Digits of any script. -/
def isDigit (c : Char) : Bool :=
  Text.isAsciiDigit c || Text.Category.mem Text.Category.decimalDigits c.toNat

/-- Drops a line feed at the end of a text. -/
def dropLineFeed (cs : List Char) : List Char :=
  if cs.getLast? = some '\n' then cs.dropLast else cs

/-- Whether an argument reads as a negative number, which is no option. A line feed may follow it. -/
def isNegativeNumber (cs : List Char) : Bool :=
  match dropLineFeed cs with
  | '-' :: cs =>
    match cs.dropWhile isDigit with
    | [] => cs ≠ []
    | '.' :: fraction => fraction ≠ [] && fraction.all isDigit
    | _ => false
  | _ => false

/-- Splits a text at its first equals sign. -/
def splitAtEquals (cs : List Char) : List Char × Option (List Char) :=
  match cs.dropWhile (· ≠ '=') with
  | [] => (cs, none)
  | _ :: value => (cs.takeWhile (· ≠ '='), some value)

/-- The options that a long spelling can mean: the one that it spells out, or all those that it may
shorten. -/
def longCandidates (spelling : List Char) : List Flag :=
  match Flag.ofSpelling? spelling with
  | some flag => [flag]
  | none => Flag.ofBeginning spelling

/-- An argument that starts with a dash and is no option. -/
def classifyOther (cs : List Char) : Token :=
  if isNegativeNumber cs || cs.contains ' ' then .operand cs else .unknownOption

/-- What an argument that starts with two dashes is. -/
def classifyLong (cs : List Char) : Except Stop Token :=
  match Flag.ofSpelling? cs, splitAtEquals cs with
  | some flag, _ => .ok (.longOption flag none)
  | none, (spelling, value) =>
    match longCandidates spelling with
    | [flag] => .ok (.longOption flag value)
    | [] => .ok (classifyOther cs)
    | _ => .error .usage

/-- What is attached to the letter of a short option: an equals sign right behind the letter does not
belong to it. -/
def attachedTo : List Char → Option (List Char)
  | [] => none
  | '=' :: value => some value
  | tail => some tail

/-- What an argument is. -/
def classify (cs : List Char) : Except Stop Token :=
  match cs with
  | '-' :: '-' :: _ => classifyLong cs
  | '-' :: c :: tail =>
    match Flag.ofSpelling? ['-', c] with
    | some flag => .ok (.shortOption flag (attachedTo tail))
    | none => .ok (classifyOther cs)
  | _ => .ok (.operand cs)

/-- What the arguments are. Only the first two dashes are a separator. -/
def tokens : List (List Char) → Except Stop (List Token)
  | [] => .ok []
  | ['-', '-'] :: rest => .ok (.separator :: rest.map .operand)
  | cs :: rest => do return (← classify cs) :: (← tokens rest)

/-! ## Interpretation -/

/-- What is given for an option: a text, or a blank where two dashes alone are attached to it. -/
inductive Given where
  | text (s : String)
  | blank
  deriving DecidableEq, Repr

namespace Given

/-- What is given by a text that is attached to an option. -/
def ofAttached (cs : List Char) : Given :=
  if cs = ['-', '-'] then blank else text (String.ofList cs)

/-- The text that is given. -/
def text? : Given → Option String
  | text s => some s
  | blank => none

end Given

/-- What the arguments ask for. A blank counts as no plan and no solver; an analysis without a name is
remembered. -/
structure Request where
  program : Option String
  analyses : List Analysis
  hasBlankAnalysis : Bool
  plan : Option String
  entry : Option Given
  solver : Option String
  draw : Bool
  verbosity : Nat

/-- Nothing asked for yet. -/
def Request.empty : Request :=
  ⟨none, [], false, none, none, none, false, 0⟩

/-- Asks for an analysis by its name. -/
def Request.takeAnalysis (r : Request) : Given → Except Stop Request
  | .blank => .ok { r with hasBlankAnalysis := true }
  | .text name =>
    match Analysis.ofName? name with
    | some a => .ok { r with analyses := r.analyses ++ [a] }
    | none => .error .usage

/-- Asks for a solver by its name. -/
def Request.takeSolver (r : Request) : Given → Except Stop Request
  | .blank => .ok { r with solver := none }
  | .text name =>
    if AnalysisConfig.solvers.contains name then .ok { r with solver := some name }
    else .error .usage

/-- Takes an option with what is given for it into account. -/
def Request.take (r : Request) (flag : Flag) (value : Given) : Except Stop Request :=
  match flag with
  | .help => .error .help
  | .version => .error .version
  | .analysis => r.takeAnalysis value
  | .solver => r.takeSolver value
  | .plan => .ok { r with plan := value.text? }
  | .entry => .ok { r with entry := some value }
  | .dot => .ok { r with draw := true }
  | .verbose => .ok { r with verbosity := r.verbosity + 1 }

/-- The options that one argument holds, with what is given for them, and the arguments that follow. -/
structure Taken where
  options : List (Flag × Given)
  rest : List Token

/-- Gives an option the operand that follows, if it takes a value. -/
def takeNext (flag : Flag) (rest : List Token) : Option Taken :=
  match flag.takesValue, rest with
  | false, _ => some ⟨[(flag, .blank)], rest⟩
  | true, .operand value :: rest => some ⟨[(flag, .text (String.ofList value))], rest⟩
  | true, _ => none

/-- Gives an option what is attached to it; an option that takes no value refuses it. -/
def takeValue (flag : Flag) (value : List Char) (rest : List Token) : Option Taken :=
  if flag.takesValue then some ⟨[(flag, .ofAttached value)], rest⟩ else none

/-- A short option with the text behind its letter. Where it takes no value, the letters of other
short options follow. -/
def takeShort (flag : Flag) (tail : List Char) (rest : List Token) : Option Taken :=
  match tail with
  | [] => takeNext flag rest
  | c :: cs =>
    if flag.takesValue then takeValue flag (c :: cs) rest
    else
      match Flag.ofSpelling? ['-', c] with
      | none => none
      | some next =>
        (takeShort next cs rest).map fun t => { t with options := (flag, .blank) :: t.options }

/-- The options of an argument; `none` if it cannot be used. -/
def takeOption : Token → List Token → Option Taken
  | .shortOption flag (some []), rest => takeValue flag [] rest
  | .shortOption flag attached, rest => takeShort flag (attached.getD []) rest
  | .longOption flag none, rest => takeNext flag rest
  | .longOption flag (some value), rest => takeValue flag value rest
  | _, _ => none

/-- Whether an argument is an option. -/
def Token.isOption : Token → Bool
  | shortOption _ _ | longOption _ _ => true
  | _ => false

/-- Drops a separator at the front. -/
def dropSeparator : List Token → List Token
  | .separator :: rest => rest
  | rest => rest

/-- The first operand is the program, with or without a separator on one side; another operand has no
meaning. -/
def takeOperand (r : Request) (clean : Bool) (ts : List Token) : Request × Bool × List Token :=
  match r.program, dropSeparator ts with
  | none, .operand text :: rest =>
    ({ r with program := some (String.ofList text) }, clean, dropSeparator rest)
  | _, _ => (r, false, ts.tail)

/-- Interprets the arguments in order; `clean` is false once there was one that has no meaning. Every
argument takes one unit of fuel. -/
def interpret : Nat → Request → Bool → List Token → Except Stop Request
  | _, r, clean, [] => if clean && r.program.isSome then .ok r else .error .usage
  | 0, _, _, _ => .error .usage
  | fuel + 1, r, clean, t :: ts =>
    if t.isOption then
      match takeOption t ts with
      | none => .error .usage
      | some taken => do
        let r ← taken.options.foldlM (fun r (flag, value) => r.take flag value) r
        interpret fuel r clean taken.rest
    else if t = .unknownOption then interpret fuel r false ts
    else
      let (r, clean, rest) := takeOperand r clean (t :: ts)
      interpret fuel r clean rest

/-- Reads the arguments of the command line. -/
def read (args : List String) : Except Stop Request := do
  let ts ← tokens (args.map String.toList)
  interpret ts.length Request.empty true ts

end TacFlow.Arguments
