import TacFlow.Code.Expr

/-!
# 32-bit arithmetic

The operators on signed 32-bit integers in two's complement. The operators take integers of any size
and their results are wrapped once at the end, so constants outside the 32-bit range may occur as
operands.
-/

namespace TacFlow

/-- How many 32-bit words there are. -/
def wordCount : Nat :=
  4294967296

/-- Wraps an integer to the signed 32-bit number with the same low 32 bits. -/
def wrap32 (n : Int) : Int :=
  n.bmod wordCount

/-- The truth value of a comparison as a number. -/
def truth (b : Bool) : Int :=
  if b then 1 else 0

/-! ## Bits

Bitwise operators see an integer as a word in two's complement that has no end on the left: `m` if it is
not negative, and the complement of `m` if it is `-m - 1`. -/

namespace Bits

/-- The bits of `m` that `n` does not have. -/
def without (m n : Nat) : Nat :=
  m ^^^ (m &&& n)

/-- The bits that either integer has. -/
def or : Int → Int → Int
  | .ofNat m, .ofNat n => .ofNat (m ||| n)
  | .ofNat m, .negSucc n => .negSucc (without n m)
  | .negSucc m, .ofNat n => .negSucc (without m n)
  | .negSucc m, .negSucc n => .negSucc (m &&& n)

/-- The bits that both integers have. -/
def and : Int → Int → Int
  | .ofNat m, .ofNat n => .ofNat (m &&& n)
  | .ofNat m, .negSucc n => .ofNat (without m n)
  | .negSucc m, .ofNat n => .ofNat (without n m)
  | .negSucc m, .negSucc n => .negSucc (m ||| n)

/-- The bits that one of the integers has and the other has not. -/
def xor : Int → Int → Int
  | .ofNat m, .ofNat n => .ofNat (m ^^^ n)
  | .ofNat m, .negSucc n => .negSucc (m ^^^ n)
  | .negSucc m, .ofNat n => .negSucc (m ^^^ n)
  | .negSucc m, .negSucc n => .ofNat (m ^^^ n)

end Bits

/-! ## Operators -/

/-- A shift distance counts modulo 32. -/
def shiftDistance (n : Int) : Nat :=
  (n % 32).toNat

/-- An operator on integers, before its result is wrapped. Division cuts off toward zero, and the
remainder has the sign of the dividend. -/
def BinOp.apply : BinOp → Int → Int → Int
  | add, a, b => a + b
  | sub, a, b => a - b
  | mul, a, b => a * b
  | div, a, b => a.tdiv b
  | rem, a, b => a.tmod b
  | eq, a, b => truth (a = b)
  | ne, a, b => truth (a ≠ b)
  | lt, a, b => truth (a < b)
  | gt, a, b => truth (b < a)
  | le, a, b => truth (a ≤ b)
  | ge, a, b => truth (b ≤ a)
  | shl, a, b => a <<< shiftDistance b
  | shr, a, b => a >>> shiftDistance b
  | ushr, a, b => (a % wordCount) >>> shiftDistance b
  | or, a, b => Bits.or a b
  | and, a, b => Bits.and a b
  | xor, a, b => Bits.xor a b

end TacFlow
