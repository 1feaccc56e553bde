/-!
# File paths

A path is shown, and looked up, in a normal form: without the components that say nothing.
-/

namespace TacFlow.Path

/-- Splits a path at its slashes. -/
def components : List Char → List (List Char)
  | [] => [[]]
  | c :: cs =>
    match components cs with
    | [] => [[c]]
    | first :: rest => if c = '/' then [] :: first :: rest else (c :: first) :: rest

/-- The root in front of a path: one slash, or two if there are exactly two. -/
def root (cs : List Char) : List Char :=
  match (cs.takeWhile (· = '/')).length with
  | 0 => []
  | 2 => ['/', '/']
  | _ => ['/']

/-- Joins components with slashes. -/
def joined : List (List Char) → List Char
  | [] => []
  | [first] => first
  | first :: rest => first ++ '/' :: joined rest

/-- The normal form of a path: no empty component and none that is a single point. A path without
any component is the current directory. -/
def normalChars (cs : List Char) : List Char :=
  match root cs ++ joined ((components cs).filter fun c => c ≠ [] && c ≠ ['.']) with
  | [] => ['.']
  | path => path

/-- The normal form of a path, as a string. -/
def normal (path : String) : String :=
  String.ofList (normalChars path.toList)

end TacFlow.Path
