import TacFlow.Grammar.Rule
import TacFlow.Grammar.Scanner
import TacFlow.Grammar.Tree

/-!
# Productions

The grammar of program text, from its tokens up to whole programs. Every production has a name in
the sense of `Rule.named`. A token takes the blank space behind it along.
-/

namespace TacFlow.Grammar

open Source Rule

/-! ## Tokens -/

/-- White space and comments. -/
def blank : Rule Unit := do
  let _ ← lexeme Scanner.blank

/-- Any keyword; read only to refuse it. -/
def keyword : Rule Unit := named do
  let _ ← lexeme Scanner.keyword

/-- One keyword. -/
def word (w : String) : Rule Unit := named do
  let _ ← lexeme (Scanner.word w)
  blank

/-- A punctuation character. -/
def punct (s : String) : Rule Unit := named do
  literal s
  blank

/-- A class name, without the blank space behind it. -/
def className : Rule String := named do
  notAhead keyword
  return String.ofList (← lexeme Scanner.dottedName)

/-- A name. -/
def ident : Rule String := named do
  notAhead keyword
  let x ← lexeme Scanner.name
  blank
  return String.ofList x

/-- An integer literal. -/
def intLit : Rule Literal := named do
  let ds ← lexeme Scanner.integer
  blank
  return ⟨Scanner.integerValue ds, Scanner.digitCount ds⟩

/-- Operators with their symbols. -/
def symbols (ops : List BinOp) : List (List Char × BinOp) :=
  ops.map fun op => (op.symbol.toList, op)

/-- A binary operator; of two symbols that begin alike the longer one is tried first. -/
def binOp : Rule BinOp := named do
  let op ← oneOf (symbols [.ushr, .shl, .shr, .le, .ge, .eq, .ne, .lt, .gt, .add, .sub, .mul, .div,
    .rem, .or, .and, .xor])
  blank
  return op

/-- A comparison. -/
def condOp : Rule BinOp := named do
  let op ← oneOf (symbols [.eq, .ne, .le, .ge, .lt, .gt])
  blank
  return op

/-- The end of the text. -/
def endOfText : Rule Unit := named fun c =>
  if c.rest.isEmpty then ⟨0, some ((), c)⟩ else ⟨0, none⟩

/-! ## Lists -/

/-- One or more parts with commas between them. -/
def separated {α : Type} (part : Rule α) : Rule (List α) := do
  let first ← part
  let rest ← many do
    punct ","
    part
  return first :: rest

/-! ## Types, operands and signatures -/

/-- Array dimensions. -/
def arrayDims : Rule Nat := named do
  return (← many (literal "[]")).length

/-- A type. -/
def type : Rule Ty := named do
  let x ← className
  let n ← arrayDims
  blank
  return Ty.wrap n (Ty.ofName x)

/-- An operand. -/
def atom : Rule Atom := named <|
  (do return .lit (← intLit)) <|> (do return .name (← ident))

/-- The name of a constructor or class initializer. -/
def initName : Rule String := named do
  let x ← lexeme Scanner.initializer
  blank
  return String.ofList x

/-- The name of a method. -/
def methodName : Rule String := named (initName <|> ident)

/-- Types with commas between them. -/
def typeList : Rule (List Ty) := named (separated type)

/-- The signature at a call. -/
def callee : Rule Callee := named do
  literal "<"
  blank
  let owner ← className
  blank
  punct ":"
  let result ← type
  let name ← methodName
  punct "("
  let params ← optional typeList
  punct ")"
  literal ">"
  blank
  return ⟨owner, result, name, params.getD []⟩

/-- The arguments of a call. -/
def argList : Rule (List Atom) := named do
  punct "("
  let args ← optional (separated atom)
  punct ")"
  return args.getD []

/-! ## Calls and accesses -/

/-- A call without a receiver. -/
def staticCall : Rule Source.Call := named do
  word "invokestatic"
  let target ← callee
  let args ← argList
  return ⟨.static, none, target, args⟩

/-- The keyword of a call with a receiver. -/
def instanceKind : Rule CallKind := named <|
  (do word "invokespecial"; return .special) <|> (do word "invokevirtual"; return .virtual) <|>
    (do word "invokeinterface"; return .interface)

/-- A call with a receiver. -/
def instanceCall : Rule Source.Call := named do
  let kind ← instanceKind
  let receiver ← ident
  punct "."
  let target ← callee
  let args ← argList
  return ⟨kind, some receiver, target, args⟩

/-- A call. -/
def call : Rule Source.Call := named (staticCall <|> instanceCall)

/-- An array element. -/
def elementRef : Rule Access := named do
  let base ← ident
  punct "["
  let index ← atom
  punct "]"
  return .element base index

/-- A field, of a variable or of a class. -/
def fieldRef : Rule Access := named do
  let base ← ident
  punct "."
  let name ← ident
  return .field base name

/-! ## Right-hand and left-hand sides -/

/-- An allocation. -/
def allocation : Rule Source.Value := named do
  word "new"
  return .alloc (← type)

/-- A cast. -/
def castValue : Rule Source.Value := named do
  punct "("
  let t ← type
  punct ")"
  return .cast t (← atom)

/-- A binary operation. -/
def binaryValue : Rule Source.Value := named do
  let left ← atom
  let op ← binOp
  let right ← atom
  return .binary left op right

/-- The right-hand side of an assignment. -/
def value : Rule Source.Value := named <|
  allocation <|> castValue <|> binaryValue <|> (do return .access (← elementRef)) <|>
    (do return .access (← fieldRef)) <|> (do return .atom (← atom))

/-- The left-hand side of an assignment. -/
def target : Rule Target := named <|
  (do return .access (← elementRef)) <|> (do return .access (← fieldRef)) <|>
    (do return .name (← ident))

/-! ## Statements -/

/-- A jump behind `if`, `case`, `default` or on its own. -/
def jump : Rule String := do
  word "goto"
  let label ← ident
  punct ";"
  return label

/-- A conditional jump. -/
def ifStmt : Rule Action := named do
  word "if"
  punct "("
  let left ← atom
  let op ← condOp
  let right ← atom
  punct ")"
  return .branch left op right (← jump)

/-- An unconditional jump. -/
def gotoStmt : Rule Action := named do
  return .goto (← jump)

/-- One case of a switch. -/
def caseClause : Rule (Literal × String) := named do
  word "case"
  let n ← intLit
  punct ":"
  return (n, ← jump)

/-- The default of a switch, which comes last. -/
def defaultClause : Rule String := named do
  word "default"
  punct ":"
  jump

/-- A jump by the value of a variable. -/
def switchStmt : Rule Action := named do
  word "switch"
  punct "("
  let subject ← ident
  punct ")"
  punct "\x7b"
  let cases ← many caseClause
  let default ← defaultClause
  punct "\x7d"
  return .switch subject cases default

/-- A return, with or without a variable. -/
def returnStmt : Rule Action := named do
  word "return"
  let x ← optional ident
  punct ";"
  return .ret x

/-- The statement without effect. -/
def nopStmt : Rule Action := named do
  word "nop"
  punct ";"
  return .nop

/-- The variable that takes the result of a call. -/
def resultAssign : Rule String := named do
  let x ← ident
  punct "="
  return x

/-- A call, with or without a variable for its result. -/
def invokeStmt : Rule Action := named do
  let result ← optional resultAssign
  let c ← call
  punct ";"
  return .invoke result c

/-- An assignment. -/
def assignStmt : Rule Action := named do
  let t ← target
  punct "="
  let v ← value
  punct ";"
  return .assign t v

/-- A statement without its labels. -/
def action : Rule Action := named <|
  ifStmt <|> gotoStmt <|> switchStmt <|> returnStmt <|> nopStmt <|> invokeStmt <|> assignStmt

/-- A label. -/
def label : Rule String := named do
  let x ← ident
  punct ":"
  return x

/-- A statement with its labels. -/
def stmt : Rule Source.Stmt := named do
  let labels ← many label
  let pos ← position
  return ⟨labels, pos, ← action⟩

/-- A declaration of local variables. -/
def localDecl : Rule Item := named do
  let pos ← position
  let t ← type
  let names ← separated ident
  punct ";"
  return .locals t names pos

/-- A part of a method body. -/
def item : Rule Item := named (localDecl <|> (do return .stmt (← stmt)))

/-! ## Methods and classes -/

/-- The code of a method. -/
def block : Rule (List Item) := named do
  punct "\x7b"
  let items ← many item
  punct "\x7d"
  return items

/-- The code of a method, or a semicolon in its place. -/
def methodBody : Rule (Option (List Item)) := named <|
  (do punct ";"; return none) <|> (do return some (← block))

/-- A word in front of a method. -/
def modifier : Rule Modifier := named <|
  (do word "static"; return .staticWord) <|> (do word "abstract"; return .abstractWord) <|>
    (do word "private"; return .privateWord) <|> (do word "public"; return .publicWord)

/-- A parameter; only the parameters of a method with code need a name. -/
def param : Rule (Ty × Option String) := named do
  let t ← type
  return (t, ← optional ident)

/-- Parameters with commas between them. -/
def paramList : Rule (List (Ty × Option String)) := named (separated param)

/-- A method declaration. -/
def method : Rule Source.Method := named do
  let pos ← position
  let modifiers ← many modifier
  let result ← type
  let name ← methodName
  punct "("
  let params ← optional paramList
  punct ")"
  let body ← methodBody
  return ⟨modifiers, result, name, params.getD [], body, pos⟩

/-- Whether a declaration is one of an interface. -/
def classKind : Rule Bool := named <|
  (do word "class"; return false) <|> (do word "interface"; return true)

/-- Class names with commas between them. -/
def classNames : Rule (List String) :=
  separated do
    let x ← className
    blank
    return x

/-- The classes that a class or interface extends. -/
def extendsClause : Rule (List String) := named do
  word "extends"
  classNames

/-- The interfaces that a class implements. -/
def implementsClause : Rule (List String) := named do
  word "implements"
  classNames

/-- A class or interface declaration. -/
def classDecl : Rule Source.Class := named do
  let pos ← position
  let abstract ← optional (word "abstract")
  let isInterface ← classKind
  let name ← className
  blank
  let extended ← optional extendsClause
  let implemented ← optional implementsClause
  punct "\x7b"
  let methods ← many method
  punct "\x7d"
  return ⟨name, isInterface, abstract.isSome, extended.getD [], implemented.getD [], methods, pos⟩

/-- A whole program. -/
def program : Rule (List Source.Class) := named do
  blank
  let classes ← many classDecl
  endOfText
  return classes

/-- Reads a program text into its classes. Where that fails, the answer is the furthest position at
which a production failed. -/
def parse (cs : List Char) : Except Nat (List Source.Class) :=
  match program ⟨0, cs⟩ with
  | ⟨_, some (classes, _)⟩ => .ok classes
  | ⟨furthest, none⟩ => .error furthest

end TacFlow.Grammar
