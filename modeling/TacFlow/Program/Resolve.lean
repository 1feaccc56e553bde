import TacFlow.Grammar.Error
import TacFlow.Grammar.Production
import TacFlow.Program.Hierarchy

/-!
# Name resolution

From source trees to programs. The classes come first, then their supertypes, the methods of all
classes, and last the bodies. The first fault in this order is reported with the line of the
declaration or statement that it was found in.
-/

namespace TacFlow.Resolve

open Source (Atom Access Target Action Item Modifier)

/-- The text that a program is read from, for the lines in error messages. -/
structure Origin where
  text : List Char
  source : Option String

/-- The line of a position. -/
def Origin.line (o : Origin) (pos : Nat) : Nat :=
  Text.lineAt o.text pos

/-- Refuses the program for a fault at a position. -/
def Origin.reject {α : Type} (o : Origin) (pos : Nat) (fault : ProgramFault) :
    Except ProgramError α :=
  .error ⟨some (SyntaxError.sourceName o.source, o.line pos), fault⟩

/-- Continues, or refuses the program for a fault at a position. -/
def Origin.attempt {α : Type} (o : Origin) (pos : Nat) : Except ProgramFault α → Except ProgramError α
  | .ok a => .ok a
  | .error fault => o.reject pos fault

/-! ## Classes -/

/-- The identity of a class of the program. -/
def classId (name : String) : ClassId :=
  ⟨name, 0⟩

/-- The declaration of a class without its supertypes and methods. -/
def shell (c : Source.Class) : ClassDecl where
  id := classId c.name
  isInterface := c.isInterface
  isAbstract := c.isAbstract || c.isInterface
  super := none
  interfaces := []
  methods := []

/-- Declares the classes; their names are different. -/
def declareClasses (o : Origin) (classes : List Source.Class) : Except ProgramError Hierarchy :=
  classes.foldlM (fun h c =>
    if (h.class? (classId c.name)).isSome then o.reject c.pos (.duplicateClass c.name)
    else .ok (h.declare (shell c))) Hierarchy.empty

/-- Looks a class up by name. -/
def lookup (o : Origin) (h : Hierarchy) (pos : Nat) (name : String) :
    Except ProgramError ClassDecl :=
  match h.class? (classId name) with
  | some c => .ok c
  | none => o.reject pos (.unknownClass name)

/-- Links a class to its supertypes: one class at most for a class, interfaces for an interface. -/
def linkSupertypes (o : Origin) (h : Hierarchy) (c : Source.Class) :
    Except ProgramError Hierarchy := do
  let extended ← c.extended.mapM (lookup o h c.pos)
  let implemented ← c.implemented.mapM (lookup o h c.pos)
  if c.isInterface && !implemented.isEmpty then o.reject c.pos (.interfaceImplements c.name)
  let supers := if c.isInterface then [] else extended
  let interfaces := if c.isInterface then extended else implemented
  if 1 < supers.length then o.reject c.pos (.severalSuperclasses c.name)
  for super in supers do
    if super.isInterface then o.reject c.pos (.extendsInterface c.name super.name)
  for interface in interfaces do
    if !interface.isInterface then o.reject c.pos (.notAnInterface interface.name)
  return h.update { shell c with super := supers.head?.map (·.id), interfaces := interfaces.map (·.id) }

/-- Makes a class a member unless it is among its own supertypes. -/
def addMember (o : Origin) (h : Hierarchy) (c : Source.Class) : Except ProgramError Hierarchy :=
  if h.isCyclic (classId c.name) then o.reject c.pos (.cyclicInheritance c.name)
  else o.attempt c.pos (h.add (classId c.name))

/-! ## Methods -/

/-- The name of a parameter, or one made from its position. -/
def paramName (i : Nat) : Option String → String
  | some name => name
  | none => "p" ++ toString i

/-- Declares a method without its body. A method of an interface that has no body is abstract. -/
def declareMethod [Nesting] (o : Origin) (cls : Source.Class) (h : Hierarchy) (m : Source.Method) :
    Except ProgramError Hierarchy := do
  let isAbstract := m.modifiers.contains .abstractWord || (cls.isInterface && m.body.isNone)
  if isAbstract && m.body.isSome then o.reject m.pos (.abstractWithBody m.subsig)
  o.attempt m.pos <| h.declareMethod {
    id := ⟨classId cls.name, m.subsig⟩
    isStatic := m.modifiers.contains .staticWord
    isAbstract := isAbstract
    isPrivate := m.modifiers.contains .privateWord
    paramNames := m.params.zipIdx.map fun ((_, name), i) => paramName i name
    body := none }

/-! ## Bodies -/

/-- What the names in a body can refer to: its variables, and the classes of the program. -/
structure Scope where
  origin : Origin
  hierarchy : Hierarchy
  method : MethodId
  vars : List Var

namespace Scope

/-- The variable of a name. -/
def var? (s : Scope) (name : String) : Option Var :=
  s.vars.find? (·.name == name)

/-- Declares a variable; the variables of a method have different names. -/
def declare (s : Scope) (pos : Nat) (type : Ty) (name : String) : Except ProgramError Scope :=
  if (s.var? name).isSome then s.origin.reject pos (.duplicateVariable name s.method)
  else .ok { s with vars := s.vars ++ [⟨s.vars.length, name, type⟩] }

/-- The variable that a name stands for. -/
def var (s : Scope) (pos : Nat) (name : String) : Except ProgramError Var :=
  match s.var? name with
  | some x => .ok x
  | none => s.origin.reject pos (.undeclaredVariable name s.method)

/-- The expression of an operand. -/
def atom (s : Scope) (pos : Nat) : Atom → Except ProgramError Expr
  | .lit n => .ok (.lit n.value)
  | .name x => do return .var (← s.var pos x)

/-- The place that an access stands for. In `a.f` a variable `a` takes precedence over a class. -/
def access (s : Scope) (pos : Nat) : Access → Except ProgramError Place
  | .element base index => do
    let x ← s.var pos base
    return .element x (← s.atom pos index)
  | .field base name =>
    match s.var? base with
    | some x => .ok (.field x name)
    | none =>
      if (s.hierarchy.class? (classId base)).isSome then .ok (.staticField base name)
      else s.origin.reject pos (.unknownBase base)

/-- The place on the left of an assignment. -/
def target (s : Scope) (pos : Nat) : Target → Except ProgramError Place
  | .name x => do return .var (← s.var pos x)
  | .access a => s.access pos a

/-- The expression on the right of an assignment. -/
def value (s : Scope) (pos : Nat) : Source.Value → Except ProgramError Expr
  | .atom a => s.atom pos a
  | .alloc t => .ok (.alloc t)
  | .cast t a => do return .cast t (← s.atom pos a)
  | .binary l op r => do
    let left ← s.atom pos l
    return .binary op left (← s.atom pos r)
  | .access a => do return (← s.access pos a).toExpr

/-- A call: its class has to exist, and it passes as many arguments as its signature says. -/
def call (s : Scope) (pos : Nat) (c : Source.Call) : Except ProgramError Call := do
  let owner ← lookup s.origin s.hierarchy pos c.callee.owner
  let subsig := c.callee.subsig
  if c.args.length ≠ subsig.params.length then
    s.origin.reject pos (.argumentCount subsig c.args.length)
  let args ← c.args.mapM (s.atom pos)
  let receiver ← c.receiver.mapM (s.var pos)
  return ⟨c.kind, ⟨owner.id, subsig⟩, receiver, args⟩

/-- A statement whose jump targets are still labels. -/
def stmt (s : Scope) (pos : Nat) : Action → Except ProgramError Stmt
  | .branch l op r _ => do
    let left ← s.atom pos l
    return .branch (.binary op left (← s.atom pos r)) none
  | .goto _ => .ok (.goto none)
  | .switch x _ _ => do return .switch (← s.var pos x) [] none
  | .ret x => do return .ret ((← x.mapM (s.var pos)).map .var)
  | .nop => .ok .nop
  | .invoke result c => do
    let result ← result.mapM (s.var pos)
    return .invoke result (← s.call pos c)
  | .assign t v => do
    let place ← s.target pos t
    return .assign place (← s.value pos v)

end Scope

/-- The positions of labels. -/
abbrev Labels := List (String × Nat)

/-- Collects the labels in front of the statements; no label stands twice. -/
def collectLabels (o : Origin) (stmts : List Source.Stmt) : Except ProgramError Labels :=
  stmts.zipIdx.foldlM (fun labels (s, i) =>
    s.labels.foldlM (fun labels name =>
      if labels.any (·.1 == name) then o.reject s.pos (.duplicateLabel name)
      else .ok (labels ++ [(name, i)])) labels) []

/-- The position that a label marks. -/
def findLabel (o : Origin) (labels : Labels) (pos : Nat) (name : String) :
    Except ProgramError Nat :=
  match labels.find? (·.1 == name) with
  | some (_, i) => .ok i
  | none => o.reject pos (.unknownLabel name)

/-- Gives a jump its targets. -/
def linkTargets (o : Origin) (labels : Labels) (source : Source.Stmt) (s : Stmt) :
    Except ProgramError Stmt :=
  match s, source.action with
  | .branch cond _, .branch _ _ _ label => do
    return .branch cond (some (← findLabel o labels source.pos label))
  | .goto _, .goto label => do return .goto (some (← findLabel o labels source.pos label))
  | .switch x _ _, .switch _ cases default => do
    let cases ← cases.mapM fun (n, label) => do return (n.value, ← findLabel o labels source.pos label)
    return .switch x cases (some (← findLabel o labels source.pos default))
  | s, _ => .ok s

/-- The scope of a body with its parameters, all of which need a name. -/
def paramScope (o : Origin) (h : Hierarchy) (id : MethodId) (m : Source.Method) :
    Except ProgramError Scope :=
  m.params.foldlM (fun s (type, name) =>
    match name with
    | none => o.reject m.pos (.unnamedParameter id)
    | some name => s.declare m.pos type name) ⟨o, h, id, []⟩

/-- The scope of a body with its local variables as well. They are known in the whole body. -/
def bodyScope (s : Scope) (items : List Item) : Except ProgramError Scope :=
  items.foldlM (fun s item =>
    match item with
    | .locals type names pos => names.foldlM (fun s name => s.declare pos type name) s
    | .stmt _ => .ok s) s

/-- The statements among the parts of a body. -/
def statements (items : List Item) : List Source.Stmt :=
  items.filterMap fun
    | .stmt s => some s
    | .locals _ _ _ => none

/-- The code of a method. -/
def body (o : Origin) (h : Hierarchy) (id : MethodId) (m : Source.Method) (items : List Item) :
    Except ProgramError Body := do
  let params ← paramScope o h id m
  let scope ← bodyScope params items
  let source := statements items
  let labels ← collectLabels o source
  let unlinked ← source.mapM fun s => scope.stmt s.pos s.action
  let stmts ← (source.zip unlinked).mapM fun (src, s) => linkTargets o labels src s
  return {
    method := id
    params := params.vars
    vars := scope.vars
    stmts := stmts
    lines := source.map fun s => o.line s.pos }

/-- Puts the code of a method into the hierarchy. -/
def setBody (h : Hierarchy) (b : Body) : Hierarchy :=
  { h with declared := h.declared.map fun c =>
      if c.id = b.method.owner then
        { c with methods := c.methods.map fun m =>
            if m.id = b.method then { m with body := some b } else m }
      else c }

/-- The methods of a program text with their classes. -/
def methodsOf (classes : List Source.Class) : List (Source.Class × Source.Method) :=
  classes.flatMap fun c => c.methods.map (c, ·)

/-- Builds the hierarchy of a program text. -/
def hierarchy [Nesting] (o : Origin) (classes : List Source.Class) : Except ProgramError Hierarchy := do
  let h ← declareClasses o classes
  let h ← classes.foldlM (linkSupertypes o) h
  let h ← classes.foldlM (addMember o) h
  let h ← (methodsOf classes).foldlM (fun h (c, m) => declareMethod o c h m) h
  (methodsOf classes).foldlM (fun h (c, m) =>
    match m.body with
    | none => .ok h
    | some items => do return setBody h (← body o h ⟨classId c.name, m.subsig⟩ m items)) h

end TacFlow.Resolve

namespace TacFlow

/-- Why a text is no program. -/
inductive LoadError where
  /-- The grammar does not allow it. -/
  | unreadable (error : SyntaxError)
  /-- A number in it is too long to be read. -/
  | tooManyDigits
  /-- It refers to what is not there, or declares something twice. -/
  | invalid (error : ProgramError)

/-- The text of a load error. -/
def LoadError.message : LoadError → String
  | unreadable error => error.report
  | tooManyDigits => "a number has more than " ++ toString Decimal.longestRun ++ " digits"
  | invalid error => error.message

/-- Reads the classes of a program from its text. -/
def Hierarchy.ofText [Nesting] (text : List Char) (source : Option String) : Except LoadError Hierarchy :=
  match Grammar.parse text with
  | .error pos => .error (.unreadable (SyntaxError.unreadable text source pos))
  | .ok classes =>
    if (classes.flatMap Source.Class.literals).any (·.isTooLong) then .error .tooManyDigits
    else (Resolve.hierarchy ⟨text, source⟩ classes).mapError .invalid

/-- Reads a program from its text. A signature chooses the entry method. -/
def Program.ofText [Nesting] (text : List Char) (main : Option String) (source : Option String) :
    Except LoadError Program := do
  let h ← Hierarchy.ofText text source
  match main with
  | none => return ⟨h, none⟩
  | some signature =>
    match h.resolve signature with
    | .error fault => .error (.invalid (.ofFault fault))
    | .ok m => return ⟨h, some m.id⟩

/-- Reads a program from the text of a file. Every line end counts as a line feed. -/
def Program.ofFile [Nesting] (path text : String) (main : Option String) : Except LoadError Program :=
  Program.ofText (Text.unifyNewlines text.toList) main (some path)

end TacFlow
