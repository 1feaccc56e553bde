import TacFlow.Text.Quoted
import TacFlow.Type

/-!
# Signatures

A method is identified within its class by its subsignature `int f(int,int)`, and within a program
by its signature `<A: int f(int,int)>`. Both have one written form and a more liberal readable one
that allows blanks between the parts.
-/

namespace TacFlow

/-- What identifies a method within its class: result type, name and parameter types. -/
structure Subsignature where
  result : Ty
  name : String
  params : List Ty
  deriving DecidableEq, Repr

/-- A declared class. Declarations of one name are told apart by a serial number; the classes of a
program all have different names and the serial number zero. -/
structure ClassId where
  name : String
  serial : Nat
  deriving DecidableEq, Repr

/-- A method as named at a call site, and the identity of a declared one: its class with its
subsignature. -/
structure MethodId where
  owner : ClassId
  subsig : Subsignature
  deriving DecidableEq, Repr

/-- Why a text is no signature. -/
inductive SignatureError where
  | signature (text : List Char)
  | subsignature (text : List Char)
  /-- A type in it is nested too deep to be read. -/
  | tooDeep
  deriving DecidableEq

/-- The text of a signature error. -/
def SignatureError.message : SignatureError → String
  | signature text => "malformed method signature: " ++ Text.quoted (String.ofList text)
  | subsignature text => "malformed method subsignature: " ++ Text.quoted (String.ofList text)
  | tooDeep => "a type is nested too deep"

/-- The types in a subsignature. -/
def Subsignature.types (s : Subsignature) : List Ty :=
  s.result :: s.params

/-- Whether a method can be looked up by a subsignature. -/
def Subsignature.isSearchable [Nesting] (s : Subsignature) : Bool :=
  s.types.all Ty.isSearchable

/-- How deep a subsignature is nested. -/
def Subsignature.depth (s : Subsignature) : Nat :=
  (s.types.map Ty.dimensions).foldl max 0 + 1

/-- Whether a subsignature can be compared with an equal one. -/
def Subsignature.isComparable [Nesting] (s : Subsignature) : Bool :=
  s.depth ≤ Nesting.comparable

/-- Whether every class can tell which method it declares under a subsignature. -/
def Subsignature.isShallow [Nesting] (s : Subsignature) : Bool :=
  s.isSearchable && s.isComparable

/-- Whether a subsignature can be written. -/
def Subsignature.isWritable [Nesting] (s : Subsignature) : Bool :=
  s.depth ≤ Nesting.writable

/-- How deep a signature is nested. -/
def MethodId.depth (m : MethodId) : Nat :=
  m.subsig.depth + 1

/-- Whether a signature can be written. -/
def MethodId.isWritable [Nesting] (m : MethodId) : Bool :=
  m.depth ≤ Nesting.writable

/-- The written form of a subsignature. -/
def Subsignature.text (s : Subsignature) : String :=
  s.result.text ++ " " ++ s.name ++ "(" ++ ",".intercalate (s.params.map Ty.text) ++ ")"

/-- The written form of a signature. -/
def MethodId.text (m : MethodId) : String :=
  "<" ++ m.owner.name ++ ": " ++ m.subsig.text ++ ">"

/-- Writes a subsignature, unless a type in it is nested too deep. -/
def Subsignature.write? [Nesting] (s : Subsignature) : Option String :=
  if s.isWritable then some s.text else none

/-- Writes a signature, unless a type in it is nested too deep. -/
def MethodId.write? [Nesting] (m : MethodId) : Option String :=
  if m.isWritable then some m.text else none

namespace Subsignature

/-- Characters of a type in a subsignature. -/
def isTypeChar (c : Char) : Bool :=
  Text.isAlphanumeric c || c == '.' || c == '$' || c == '[' || c == ']'

/-- Characters of a method name in a subsignature. -/
def isNameChar (c : Char) : Bool :=
  Text.isAlphanumeric c || c == '$' || c == '<' || c == '>'

/-- Splits a list of parameters at its commas. -/
def splitParams : List Char → List (List Char)
  | [] => [[]]
  | c :: rest =>
    match splitParams rest with
    | [] => [[c]]
    | first :: others => if c = ',' then [] :: first :: others else (c :: first) :: others

/-- The parameter types in a list; blank entries are passed over. -/
def readParams (cs : List Char) : List Ty :=
  ((splitParams cs).filter fun p => !p.all Text.isBlank).map Ty.ofText

/-- Reads a subsignature that has no blanks around it. -/
def readTrimmed (cs : List Char) : Option Subsignature :=
  let result := cs.takeWhile isTypeChar
  let rest := cs.dropWhile isTypeChar
  let afterBlank := rest.dropWhile Text.isBlank
  let name := afterBlank.takeWhile isNameChar
  match (afterBlank.dropWhile isNameChar).dropWhile Text.isBlank with
  | '(' :: more =>
    let params := more.takeWhile (· != ')')
    if result ≠ [] && rest.length != afterBlank.length && name ≠ [] &&
        more.dropWhile (· != ')') = [')'] then
      some ⟨Ty.ofText result, String.ofList name, readParams params⟩
    else none
  | _ => none

/-- Reads a subsignature. -/
def read [Nesting] (cs : List Char) : Except SignatureError Subsignature :=
  match readTrimmed (Text.trim cs) with
  | some s => if s.types.all Ty.isReadable then .ok s else .error .tooDeep
  | none => .error (.subsignature cs)

end Subsignature

namespace MethodId

/-- Characters of a class name in a signature. -/
def isClassChar (c : Char) : Bool :=
  Text.isAlphanumeric c || c == '.' || c == '$'

/-- The subsignature part of a signature, from behind the colon up to before the closing bracket:
the text without the blanks around it, which may hold no line feed. Where all of it is blank, its
last character other than a line feed stands for it. -/
def innerPart (cs : List Char) : Option (List Char) :=
  match Text.trim cs with
  | [] => (cs.reverse.find? (· != '\n')).map ([·])
  | inner => if inner.contains '\n' then none else some inner

/-- Splits a signature without blanks around it into class name and subsignature. -/
def splitTrimmed (cs : List Char) : Option (List Char × List Char) :=
  match cs with
  | '<' :: rest =>
    let start := rest.dropWhile Text.isBlank
    let owner := start.takeWhile isClassChar
    match (start.dropWhile isClassChar).dropWhile Text.isBlank, owner with
    | ':' :: tail, _ :: _ =>
      match tail.reverse with
      | '>' :: inner => (innerPart inner.reverse).map (owner, ·)
      | _ => none
    | _, _ => none
  | _ => none

/-- Reads a signature into the class name and the subsignature. -/
def read [Nesting] (cs : List Char) : Except SignatureError (String × Subsignature) :=
  match splitTrimmed (Text.trim cs) with
  | some (owner, inner) => do return (String.ofList owner, ← Subsignature.read inner)
  | none => .error (.signature cs)

end MethodId

end TacFlow
