import TacFlow.Signature

/-!
# Program errors

What can be wrong with a program that is well-formed as a text, or with a request about one.
-/

namespace TacFlow

/-- What is wrong with a program. -/
inductive ProgramFault where
  | malformed (error : SignatureError)
  /-- A method would have to be looked up by types that are nested too deep. -/
  | tooDeep
  | duplicateClass (name : String)
  | unknownClass (name : String)
  | interfaceImplements (name : String)
  | severalSuperclasses (name : String)
  | extendsInterface (name super : String)
  | notAnInterface (name : String)
  | cyclicInheritance (name : String)
  | abstractWithBody (subsig : Subsignature)
  | duplicateMethod (subsig : Subsignature) (cls : String)
  | unnamedParameter (method : MethodId)
  | duplicateVariable (name : String) (method : MethodId)
  | undeclaredVariable (name : String) (method : MethodId)
  | unknownBase (name : String)
  | duplicateLabel (name : String)
  | unknownLabel (name : String)
  | argumentCount (subsig : Subsignature) (count : Nat)
  | unknownClassOf (cls : String) (signature : String)
  | unknownMethod (signature : String)
  | noBody (method : MethodId)
  deriving DecidableEq

/-- The text of a fault. -/
def ProgramFault.message : ProgramFault → String
  | malformed error => error.message
  | tooDeep => "a method cannot be looked up by a type that is nested too deep"
  | duplicateClass name => "duplicate class " ++ name
  | unknownClass name => "unknown class " ++ name
  | interfaceImplements name => "interface " ++ name ++ " cannot implement"
  | severalSuperclasses name => "class " ++ name ++ " extends more than one class"
  | extendsInterface name super => "class " ++ name ++ " extends interface " ++ super
  | notAnInterface name => name ++ " is not an interface"
  | cyclicInheritance name => "cyclic inheritance involving " ++ name
  | abstractWithBody subsig => "abstract method " ++ subsig.text ++ " has a body"
  | duplicateMethod subsig cls => "duplicate method " ++ subsig.text ++ " in class " ++ cls
  | unnamedParameter method => "parameter of " ++ method.text ++ " needs a name"
  | duplicateVariable name method => "variable " ++ name ++ " declared twice in " ++ method.text
  | undeclaredVariable name method => "undeclared variable " ++ name ++ " in " ++ method.text
  | unknownBase name => "unknown variable or class " ++ name
  | duplicateLabel name => "duplicate label " ++ name
  | unknownLabel name => "unknown label " ++ name
  | argumentCount subsig count =>
    "call to " ++ subsig.text ++ " passes " ++ toString count ++ " arguments"
  | unknownClassOf cls signature => "unknown class " ++ cls ++ " in " ++ signature
  | unknownMethod signature => "unknown method " ++ signature
  | noBody method => "method " ++ method.text ++ " has no body"

/-- Whether the text of a fault can be written. It cannot where it shows a method whose types are nested
too deep, and a fault of nesting itself has no text to show. -/
def ProgramFault.isWritable [Nesting] : ProgramFault → Bool
  | malformed error => error ≠ .tooDeep
  | tooDeep => false
  | abstractWithBody subsig | duplicateMethod subsig _ | argumentCount subsig _ => subsig.isWritable
  | unnamedParameter method | duplicateVariable _ method | undeclaredVariable _ method
  | noBody method => method.isWritable
  | _ => true

/-- A fault with the source and the line where it was found, if it was found in a text. -/
structure ProgramError where
  place : Option (String × Nat)
  fault : ProgramFault
  deriving DecidableEq

namespace ProgramError

/-- A fault of no particular place. -/
def ofFault (fault : ProgramFault) : ProgramError :=
  ⟨none, fault⟩

/-- The text of an error, with its place in front. -/
def message (e : ProgramError) : String :=
  match e.place with
  | some (source, line) => source ++ ":" ++ toString line ++ ": " ++ e.fault.message
  | none => e.fault.message

end ProgramError

end TacFlow
