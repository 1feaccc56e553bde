/-!
# The constant lattice

What is known about the value of a variable: nothing was assigned yet, it is one constant, or it is
not a constant. Distinct constants are incomparable and join to `nac`.
-/

namespace TacFlow

/-- An element of the constant lattice. -/
inductive Value where
  | unassigned
  | const (n : Int)
  | nac
  deriving DecidableEq, Repr

/-- A request for the constant of a value that is none. -/
structure NotConstant where
  value : Value

namespace Value

/-- The written form of a value. -/
def text : Value → String
  | unassigned => "UNDEF"
  | const n => toString n
  | nac => "NAC"

/-- The order of the lattice, from `unassigned` over the constants to `nac`. -/
def le (a b : Value) : Bool :=
  match a, b with
  | unassigned, _ => true
  | _, nac => true
  | _, _ => a == b

/-- The least value above two values. -/
def join : Value → Value → Value
  | nac, _ => nac
  | _, nac => nac
  | unassigned, b => b
  | a, unassigned => a
  | const m, const n => if m = n then const m else nac

/-- The constant of a value. -/
def constant : Value → Except NotConstant Int
  | const n => .ok n
  | v => .error ⟨v⟩

end Value

/-- The text of the error. -/
def NotConstant.message (e : NotConstant) : String :=
  e.value.text ++ " is not a constant"

end TacFlow
