import TacFlow.CommandLine.Path

/-!
# Files

What stands at a path, seen from a directory that holds nothing but some files.
-/

namespace TacFlow.Path

/-- What a path leads to. -/
inductive Found where
  | file (text : String)
  | directory
  | nothing
  /-- A file stands where the path goes through a directory. -/
  | beyondFile
  /-- The path or one of its components is longer than a file system takes. -/
  | tooLong
  /-- The path holds a null character, which no path can. -/
  | noPath

/-- The most bytes of a component. -/
def longestComponent : Nat := 255

/-- The most bytes of a path. -/
def longestPath : Nat := 4095

/-- How many bytes some characters take. -/
def byteCount (cs : List Char) : Nat :=
  (String.ofList cs).utf8ByteSize

/-- A file with the components of its path. -/
structure File where
  path : List (List Char)
  text : String

/-- The components of a path that say something. -/
def steps (path : String) : List (List Char) :=
  (components path.toList).filter fun c => c ≠ [] && c ≠ ['.']

/-- Walks outside of the directory of the files, where nothing is known but that parents are
directories. -/
def walkOutside : List (List Char) → Found
  | [] => .directory
  | step :: rest =>
    if longestComponent < byteCount step then .tooLong
    else if step = ['.', '.'] then walkOutside rest
    else .nothing

/-- Walks from a directory, given by its components. -/
def walk (files : List File) (here : List (List Char)) : List (List Char) → Found
  | [] => .directory
  | step :: rest =>
    let next := here ++ [step]
    if longestComponent < byteCount step then .tooLong
    else if step = ['.', '.'] then
      if here = [] then walkOutside rest else walk files here.dropLast rest
    else
      match files.find? (·.path = next) with
      | some f => if rest = [] then .file f.text else .beyondFile
      | none =>
        if files.any fun f => next.isPrefixOf f.path then walk files next rest else .nothing

/-- What a path leads to. -/
def find (files : List (String × String)) (path : String) : Found :=
  let cs := path.toList
  if cs.contains '\x00' then .noPath
  else if longestPath < byteCount cs then .tooLong
  else if cs.head? = some '/' then walkOutside (steps path)
  else walk (files.map fun f => ⟨steps f.1, f.2⟩) [] (steps path)

end TacFlow.Path
