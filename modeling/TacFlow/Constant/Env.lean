import TacFlow.Code.Expr
import TacFlow.Constant.Value

/-!
# Constant environments

An environment gives every variable a value of the constant lattice. Only finitely many variables
have a value other than `unassigned`, and just those are listed, each once, in the order in which they
were bound: a new value keeps the place of the old one.
-/

namespace TacFlow

/-- An environment, listed. -/
structure Env where
  entries : List (Var × Value)
  nodup : (entries.map (·.1)).Nodup
  defined : ∀ e ∈ entries, e.2 ≠ .unassigned

namespace Env

/-- The environment in which nothing is assigned. -/
def empty : Env :=
  ⟨[], by simp, by simp⟩

/-- The value of a variable. -/
def get (f : Env) (x : Var) : Value :=
  ((f.entries.find? (·.1 = x)).map (·.2)).getD .unassigned

/-- Whether a variable is listed. -/
def contains (f : Env) (x : Var) : Bool :=
  f.entries.any (·.1 = x)

/-- The listed variables in order. -/
def keys (f : Env) : List Var :=
  f.entries.map (·.1)

/-- The number of listed variables. -/
def size (f : Env) : Nat :=
  f.entries.length

/-- Takes a variable out. -/
def erase (f : Env) (x : Var) : Env where
  entries := f.entries.filter (·.1 ≠ x)
  nodup := f.nodup.sublist (List.filter_sublist.map _)
  defined e h := f.defined e (List.mem_filter.1 h).1

/-- The entries with the value of one variable replaced. -/
def replaced (entries : List (Var × Value)) (x : Var) (v : Value) : List (Var × Value) :=
  entries.map fun e => if e.1 = x then (x, v) else e

theorem map_fst_replaced (entries : List (Var × Value)) (x : Var) (v : Value) :
    (replaced entries x v).map (·.1) = entries.map (·.1) := by
  induction entries with
  | nil => rfl
  | cons e rest ih =>
    simp only [replaced, List.map_cons, List.cons.injEq] at ih ⊢
    refine ⟨?_, ih⟩
    split <;> simp_all

/-- Gives a variable a value other than `unassigned`. -/
def insert (f : Env) (x : Var) (v : Value) (hv : v ≠ .unassigned) : Env :=
  if h : f.contains x then
    { entries := replaced f.entries x v
      nodup := by rw [map_fst_replaced]; exact f.nodup
      defined := by
        intro e he
        obtain ⟨d, hd, rfl⟩ := List.mem_map.1 he
        split
        · exact hv
        · exact f.defined d hd }
  else
    { entries := f.entries ++ [(x, v)]
      nodup := by
        rw [List.map_append, List.nodup_append]
        refine ⟨f.nodup, by simp, ?_⟩
        intro y hy z hz hyz
        simp only [List.map_cons, List.map_nil, List.mem_singleton] at hz
        subst hz; subst hyz
        obtain ⟨e, he, hex⟩ := List.mem_map.1 hy
        exact h (List.any_eq_true.2 ⟨e, he, by simpa using hex⟩)
      defined := by
        intro e he
        rcases List.mem_append.1 he with he | he
        · exact f.defined e he
        · simp only [List.mem_singleton] at he
          subst he
          exact hv }

/-- Gives a variable a value, and forgets it if the value is `unassigned`. -/
def set (f : Env) (x : Var) (v : Value) : Env :=
  if h : v = .unassigned then f.erase x else f.insert x v h

/-- Gives a variable a value and tells whether that changed the environment. -/
def update (f : Env) (x : Var) (v : Value) : Env × Bool :=
  (f.set x v, f.get x != v)

/-- Takes a variable out and returns the value that it had. -/
def remove (f : Env) (x : Var) : Env × Value :=
  (f.erase x, f.get x)

/-- The environment with the given bindings; the last binding of a variable counts. -/
def ofList (bindings : List (Var × Value)) : Env :=
  bindings.foldl (fun f e => f.set e.1 e.2) empty

/-- Overwrites an environment with the listed variables of another one; the others stay as they are.
Tells whether anything changed. -/
def copyFrom (f g : Env) : Env × Bool :=
  g.entries.foldl (fun (acc, changed) e =>
    let (next, c) := acc.update e.1 e.2
    (next, changed || c)) (f, false)

/-- Joins another environment into this one, variable by variable. -/
def joinWith (f g : Env) : Env :=
  g.entries.foldl (fun acc e => acc.set e.1 (e.2.join (acc.get e.1))) f

/-- Whether two environments give every variable the same value. -/
def same (f g : Env) : Bool :=
  f.size == g.size && f.entries.all fun e => g.get e.1 == e.2

/-- The written form: the listed variables sorted by name. -/
def text (f : Env) : String :=
  let sorted := f.entries.mergeSort fun a b => a.1.name ≤ b.1.name
  "\x7b" ++ ", ".intercalate (sorted.map fun (x, v) => x.name ++ "=" ++ v.text) ++ "\x7d"

end Env

end TacFlow
