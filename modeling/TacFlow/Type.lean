import TacFlow.Nesting
import TacFlow.Text.Class

/-!
# Types

The types of variables, parameters and results. A type is written as a name with any number of `[]`
behind it.
-/

namespace TacFlow

/-- Types that name no class. -/
inductive Primitive where
  | byte | short | int | long | float | double | char | boolean | void
  deriving DecidableEq, Repr

namespace Primitive

/-- The keyword of a primitive type. -/
def name : Primitive → String
  | byte => "byte"
  | short => "short"
  | int => "int"
  | long => "long"
  | float => "float"
  | double => "double"
  | char => "char"
  | boolean => "boolean"
  | void => "void"

/-- Every primitive type. -/
def all : List Primitive :=
  [byte, short, int, long, float, double, char, boolean, void]

/-- The primitive type with a given keyword. -/
def ofName? (s : String) : Option Primitive :=
  all.find? (·.name == s)

end Primitive

/-- A type: primitive, a class or interface by name, or an array. -/
inductive Ty where
  | primitive (p : Primitive)
  | named (name : String)
  | array (element : Ty)
  deriving DecidableEq, Repr

namespace Ty

/-- The written form of a type. -/
def text : Ty → String
  | primitive p => p.name
  | named name => name
  | array element => element.text ++ "[]"

/-- How many dimensions a type has. -/
def dimensions : Ty → Nat
  | primitive _ | named _ => 0
  | array element => element.dimensions + 1

/-- Whether a type can be read from its name. -/
def isReadable [Nesting] (t : Ty) : Bool :=
  t.dimensions ≤ Nesting.readable

/-- Whether something can be looked up by a type. -/
def isSearchable [Nesting] (t : Ty) : Bool :=
  t.dimensions ≤ Nesting.searchable

/-- Whether a type can be written. -/
def isWritable [Nesting] (t : Ty) : Bool :=
  t.dimensions ≤ Nesting.writable

/-- The type with a given name, which is not an array. -/
def ofName (name : String) : Ty :=
  match Primitive.ofName? name with
  | some p => primitive p
  | none => named name

/-- Wraps a type in a number of array dimensions. -/
def wrap : Nat → Ty → Ty
  | 0, t => t
  | n + 1, t => wrap n (array t)

/-- Reads a type from its characters in reverse order: blanks and `[]` are taken off the end. -/
def ofReversed : List Char → Ty
  | ']' :: '[' :: rest => array (ofReversed rest)
  | c :: rest =>
    if Text.isBlank c then ofReversed rest
    else ofName (String.ofList (Text.trim (c :: rest).reverse))
  | [] => named ""

/-- Reads a type name such as `int`, `A` or `int[][]`. Blanks around the name and around each `[]`
do not count; any other text names a class. -/
def ofText (cs : List Char) : Ty :=
  ofReversed cs.reverse

/-- Types whose values are tracked as 32-bit integers. -/
def isIntLike : Ty → Bool
  | primitive .byte | primitive .short | primitive .int | primitive .char | primitive .boolean =>
    true
  | _ => false

end Ty

end TacFlow
