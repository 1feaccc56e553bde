import TacFlow.Constant.Env

/-!
# Environments in memory

The environments of an analysis are changed in place. Here each one is an object that holds a dictionary
of bindings by its address. An operation changes the dictionary that its object holds, whoever else holds
it, and a loop over the bindings of an object reads them anew at every turn, as they stand by then. So
objects could change with each other, and an operation on an object and itself could disturb its own loop.
-/

namespace TacFlow

/-! ## Dictionaries -/

/-- The bindings of a dictionary, in the order in which their variables came in. -/
abbrev Dict := List (Var × Value)

namespace Dict

/-- The value that is bound to a variable. -/
def get? (d : Dict) (x : Var) : Option Value :=
  (d.find? (·.1 = x)).map (·.2)

/-- Binds a variable. One that is bound already keeps its place. -/
def put (d : Dict) (x : Var) (v : Value) : Dict :=
  if d.any (·.1 = x) then Env.replaced d x v else d ++ [(x, v)]

/-- Takes the binding of a variable out. -/
def pop (d : Dict) (x : Var) : Dict :=
  d.filter (·.1 ≠ x)

/-- Whether two dictionaries have the same bindings. -/
def same (d e : Dict) : Bool :=
  d.length == e.length && d.all fun b => get? e b.1 == some b.2

end Dict

/-! ## Memory -/

/-- What stands in memory: dictionaries at their addresses, and objects, each with the address of the
dictionary that it holds. -/
structure Memory where
  dicts : List Dict
  objects : List Nat

/-- Why an operation breaks down. -/
inductive MemoryFault where
  | noObject (i : Nat)
  | noDict (address : Nat)
  /-- A dictionary has another size than at the start of a loop over it. -/
  | resized
  deriving DecidableEq, Repr

namespace Memory

/-- The memory in which there is nothing yet. -/
def empty : Memory :=
  ⟨[], []⟩

/-- A computation on a memory. -/
abbrev Work := StateT Memory (Except MemoryFault)

/-- The address of the dictionary that an object holds. -/
def addressOf (i : Nat) : Work Nat := do
  match (← get).objects[i]? with
  | some a => return a
  | none => throw (.noObject i)

/-- The dictionary at an address. -/
def dictAt (a : Nat) : Work Dict := do
  match (← get).dicts[a]? with
  | some d => return d
  | none => throw (.noDict a)

/-- Changes the dictionary at an address. -/
def setDict (a : Nat) (d : Dict) : Work Unit :=
  modify fun m => { m with dicts := m.dicts.set a d }

/-- Puts a dictionary at a new address. -/
def newDict (d : Dict) : Work Nat := do
  let a := (← get).dicts.length
  modify fun m => { m with dicts := m.dicts ++ [d] }
  return a

/-- Makes an object that holds the dictionary at an address. -/
def newObject (a : Nat) : Work Nat := do
  let i := (← get).objects.length
  modify fun m => { m with objects := m.objects ++ [a] }
  return i

/-- Lets an object hold another dictionary. -/
def hold (i a : Nat) : Work Unit :=
  modify fun m => { m with objects := m.objects.set i a }

/-! ## Loops over a dictionary -/

/-- The dictionary at an address, if it has still the size that it had at the start of a loop. -/
def steadyDict (a size : Nat) : Work Dict := do
  let d ← dictAt a
  if d.length = size then return d else throw .resized

/-- The turns of a loop over a dictionary from its binding `next` on, with `left` of them to go. Each turn
takes its binding from the dictionary as it stands by then. -/
def turns {β : Type} (a size : Nat) (body : β → Var × Value → Work β) : Nat → Nat → β → Work β
  | _, 0, acc => do
    let _ ← steadyDict a size
    return acc
  | next, left + 1, acc => do
    let d ← steadyDict a size
    match d[next]? with
    | some b => turns a size body (next + 1) left (← body acc b)
    | none => return acc

/-- Goes through the bindings of the dictionary at an address. -/
def loop {β : Type} (a : Nat) (body : β → Var × Value → Work β) (acc : β) : Work β := do
  let size := (← dictAt a).length
  turns a size body 0 size acc

/-! ## What objects can do -/

/-- The value of a variable. -/
def valueOf (i : Nat) (x : Var) : Work Value := do
  let d ← dictAt (← addressOf i)
  return (Dict.get? d x).getD .unassigned

/-- Gives a variable a value, and takes it out if the value is `unassigned`. Tells whether that changed
anything. -/
def update (i : Nat) (x : Var) (v : Value) : Work Bool := do
  let a ← addressOf i
  let d ← dictAt a
  if v = .unassigned then
    setDict a (Dict.pop d x)
    return (Dict.get? d x).isSome
  else
    setDict a (Dict.put d x v)
    return Dict.get? d x != some v

/-- Takes a variable out and returns the value that it had. -/
def remove (i : Nat) (x : Var) : Work Value := do
  let a ← addressOf i
  let d ← dictAt a
  setDict a (Dict.pop d x)
  return (Dict.get? d x).getD .unassigned

/-- Makes an object with some bindings. -/
def create (bindings : Dict) : Work Nat := do
  let i ← newObject (← newDict [])
  bindings.forM fun b => discard <| update i b.1 b.2
  return i

/-- Overwrites an object with the bindings of another one. Tells whether anything changed. -/
def copyFrom (i j : Nat) : Work Bool := do
  loop (← addressOf j) (fun changed b => return changed || (← update i b.1 b.2)) false

/-- Joins the bindings of an object into another one. -/
def joinInto (i j : Nat) : Work Unit := do
  loop (← addressOf i) (fun _ b => do
    let old ← valueOf j b.1
    discard <| update j b.1 (b.2.join old)) ()

/-- Makes an object with the bindings of another one. It starts with an empty dictionary and then holds
one of its own with the same bindings. -/
def copy (i : Nat) : Work Nat := do
  let a ← addressOf i
  let j ← newObject (← newDict [])
  hold j (← newDict (← dictAt a))
  return j

/-- Takes everything out. -/
def clear (i : Nat) : Work Unit := do
  setDict (← addressOf i) []

/-- Whether two objects are equal. -/
def equal (i j : Nat) : Work Bool := do
  let d ← dictAt (← addressOf i)
  return Dict.same d (← dictAt (← addressOf j))

/-! ## Sequences of operations -/

/-- An operation on objects, which are numbered in the order in which they are made. -/
inductive Op where
  | new (bindings : Dict)
  | update (i : Nat) (x : Var) (v : Value)
  | remove (i : Nat) (x : Var)
  | copyFrom (i j : Nat)
  | joinInto (i j : Nat)
  | copy (i : Nat)
  | clear (i : Nat)
  deriving DecidableEq, Repr

/-- What an operation answers. -/
inductive Answer where
  | done
  | made (i : Nat)
  | changed (b : Bool)
  | had (v : Value)
  deriving DecidableEq, Repr

/-- Does an operation. -/
def perform : Op → Work Answer
  | .new bindings => return .made (← create bindings)
  | .update i x v => return .changed (← update i x v)
  | .remove i x => return .had (← remove i x)
  | .copyFrom i j => return .changed (← copyFrom i j)
  | .joinInto i j => do
    joinInto i j
    return .done
  | .copy i => return .made (← copy i)
  | .clear i => do
    clear i
    return .done

/-- Does operations one after another. -/
def performAll : List Op → Work (List Answer)
  | [] => return []
  | op :: ops => do
    let answer ← perform op
    return answer :: (← performAll ops)

end Memory

end TacFlow
