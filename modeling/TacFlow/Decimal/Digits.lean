/-!
# Runs of digits

The value of a run of decimal digits, and how long a run may be to be read as a whole number.
-/

namespace TacFlow.Decimal

/-- The number that a run of digits writes. -/
def digitsValue (ds : List Char) : Nat :=
  ds.foldl (fun n c => n * 10 + (c.toNat - 48)) 0

/-- The most digits that are read as a whole number; leading zeros count. -/
def longestRun : Nat := 4300

end TacFlow.Decimal
