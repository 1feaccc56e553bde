import TacFlow.Decimal.Shortest
import TacFlow.Json.Str

/-!
# JSON values

Decoded JSON. An object keeps its members in the order in which their names first appear, because
messages show them in that order.
-/

namespace TacFlow

/-- A decoded JSON value. Whole numbers are kept exactly, of any size. -/
inductive Json where
  | null
  | bool (b : Bool)
  | int (n : Int)
  | float (x : Float)
  | str (s : Json.Str)
  | arr (items : List Json)
  | obj (members : List (Json.Str × Json))

namespace Json

/-- Sets a member: a name that is already present keeps its place. -/
def setMember (members : List (Str × Json)) (name : Str) (value : Json) : List (Str × Json) :=
  if members.any (·.1 = name) then
    members.map fun m => if m.1 = name then (name, value) else m
  else members ++ [(name, value)]

/-- Looks a member up. -/
def member? (members : List (Str × Json)) (name : String) : Option Json :=
  (members.find? (·.1 = Str.ofString name)).map (·.2)

/-- Whether a value counts as absent where an optional one is asked for: null, false, zero and
whatever is empty. -/
def isVoid : Json → Bool
  | null => true
  | bool b => !b
  | int n => n == 0
  | float x => x == 0.0
  | str s => s.isEmpty
  | arr items => items.isEmpty
  | obj members => members.isEmpty

mutual

/-- How messages show a value. -/
def display : Json → String
  | null => "None"
  | bool true => "True"
  | bool false => "False"
  | int n => toString n
  | float x => Decimal.floatText x
  | str s => s.quoted
  | arr items => "[" ++ ", ".intercalate (displayItems items) ++ "]"
  | obj members => "\x7b" ++ ", ".intercalate (displayMembers members) ++ "\x7d"

/-- How messages show the items of an array. -/
def displayItems : List Json → List String
  | [] => []
  | v :: rest => display v :: displayItems rest

/-- How messages show the members of an object. -/
def displayMembers : List (Str × Json) → List String
  | [] => []
  | (name, v) :: rest => (name.quoted ++ ": " ++ display v) :: displayMembers rest

end

end Json

end TacFlow
