import TacFlow.Constant.Arith

/-!
# Words

The values that programs compute with are words of 32 bits, and the operators are the instructions
of a machine on such words. The arithmetic of constant propagation works on unbounded integers and
wraps once; `wrap32_apply` says that it computes what the machine does.
-/

namespace TacFlow

/-- The values of variables when a program runs. -/
abbrev Word : Type := BitVec 32

/-- The word of a truth value. -/
def flag (b : Bool) : Word :=
  if b then 1#32 else 0#32

/-- How far a word tells to shift. -/
def Word.distance (a : Word) : Nat :=
  a.toNat % 32

/-- The machine instruction of an operator. Division by zero has no result. -/
def BinOp.onWords : BinOp → Word → Word → Option Word
  | add, a, b => some (a + b)
  | sub, a, b => some (a - b)
  | mul, a, b => some (a * b)
  | div, a, b => if b = 0#32 then none else some (a.sdiv b)
  | rem, a, b => if b = 0#32 then none else some (a.srem b)
  | eq, a, b => some (flag (a = b))
  | ne, a, b => some (flag (a ≠ b))
  | lt, a, b => some (flag (a.slt b))
  | gt, a, b => some (flag (b.slt a))
  | le, a, b => some (flag (a.sle b))
  | ge, a, b => some (flag (b.sle a))
  | shl, a, b => some (a <<< Word.distance b)
  | shr, a, b => some (a.sshiftRight (Word.distance b))
  | ushr, a, b => some (a >>> Word.distance b)
  | or, a, b => some (a ||| b)
  | and, a, b => some (a &&& b)
  | xor, a, b => some (a ^^^ b)

/-- Only a division can fail, and only on zero. -/
theorem BinOp.onWords_eq_none {op : BinOp} {a b : Word} :
    op.onWords a b = none ↔ op.isDivision = true ∧ b = 0#32 := by
  cases op <;> simp [onWords, isDivision]

theorem wrap32_eq (n : Int) : wrap32 n = (BitVec.ofInt 32 n).toInt := by
  rw [BitVec.toInt_ofInt]
  rfl

theorem wrap32_toInt (a : Word) : wrap32 a.toInt = a.toInt := by
  rw [wrap32_eq, BitVec.ofInt_toInt]

theorem wrap32_truth (b : Bool) : wrap32 (truth b) = (flag b).toInt := by
  cases b <;> decide

/-- The low five bits of a number are those of its word. -/
theorem shiftDistance_toInt (b : Word) : shiftDistance b.toInt = Word.distance b := by
  unfold shiftDistance Word.distance
  rw [BitVec.toInt_eq_toNat_cond]
  split <;> omega

theorem emod_toInt (a : Word) : a.toInt % wordCount = a.toNat := by
  have := a.isLt
  rw [BitVec.toInt_eq_toNat_cond, wordCount]
  split <;> omega

theorem ofInt_shiftLeft (a : Word) (k : Nat) : BitVec.ofInt 32 (a.toInt <<< k) = a <<< k := by
  apply BitVec.eq_of_toInt_eq
  rw [BitVec.toInt_ofInt, BitVec.toInt_shiftLeft, Int.shiftLeft_eq, Nat.shiftLeft_eq,
    BitVec.toInt_eq_toNat_bmod, Int.bmod_mul_bmod]
  push_cast
  rfl

theorem ofInt_shiftRight (a : Word) (k : Nat) :
    BitVec.ofInt 32 ((a.toNat : Int) >>> k) = a >>> k := by
  apply BitVec.eq_of_toNat_eq
  have hlt : a.toNat >>> k < 2 ^ 32 := Nat.lt_of_le_of_lt (Nat.shiftRight_le _ _) a.isLt
  rw [BitVec.toNat_ushiftRight]
  change (BitVec.ofInt 32 ((a.toNat >>> k : Nat) : Int)).toNat = _
  rw [BitVec.ofInt_natCast, BitVec.toNat_ofNat, Nat.mod_eq_of_lt hlt]

/-! ## Bits

The word of an integer has the low bits of the integer, so operators that work bit by bit do the same
before and after the high ones are cut off. -/

section

variable {w : Nat}

theorem ofNat_without (m n : Nat) :
    BitVec.ofNat w (Bits.without m n) = BitVec.ofNat w m &&& ~~~BitVec.ofNat w n := by
  ext i hi
  simp only [Bits.without, BitVec.ofNat_xor, BitVec.ofNat_and, BitVec.getElem_xor,
    BitVec.getElem_and, BitVec.getElem_not]
  grind

theorem ofInt_or (a b : Int) :
    BitVec.ofInt w (Bits.or a b) = BitVec.ofInt w a ||| BitVec.ofInt w b := by
  ext i hi
  cases a <;> cases b <;> simp [Bits.or, ofNat_without]
  exact Bool.or_comm _ _

theorem ofInt_and (a b : Int) :
    BitVec.ofInt w (Bits.and a b) = BitVec.ofInt w a &&& BitVec.ofInt w b := by
  ext i hi
  cases a <;> cases b <;> simp [Bits.and, ofNat_without]
  exact Bool.and_comm _ _

theorem ofInt_xor (a b : Int) :
    BitVec.ofInt w (Bits.xor a b) = BitVec.ofInt w a ^^^ BitVec.ofInt w b := by
  ext i hi
  cases a <;> cases b <;> simp [Bits.xor]

end

/-! ## Operators -/

/-- **Wrapped arithmetic on integers is the arithmetic of the machine.** -/
theorem wrap32_apply {op : BinOp} {a b r : Word} (h : op.onWords a b = some r) :
    wrap32 (op.apply a.toInt b.toInt) = r.toInt := by
  cases op <;> simp only [BinOp.onWords, Option.some.injEq, Option.ite_none_left_eq_some] at h
  case add => rw [← h, BitVec.toInt_add]; rfl
  case sub => rw [← h, BitVec.toInt_sub]; rfl
  case mul => rw [← h, BitVec.toInt_mul]; rfl
  case div => rw [← h.2, BitVec.toInt_sdiv]; rfl
  case rem => rw [← h.2, BinOp.apply, ← BitVec.toInt_srem, wrap32_toInt]
  case eq => rw [← h, ← wrap32_truth, BinOp.apply]; simp only [BitVec.toInt_inj]
  case ne => rw [← h, ← wrap32_truth, BinOp.apply]; simp only [ne_eq, BitVec.toInt_inj]
  case lt => rw [← h, ← wrap32_truth, BinOp.apply]; rfl
  case gt => rw [← h, ← wrap32_truth, BinOp.apply]; rfl
  case le => rw [← h, ← wrap32_truth, BinOp.apply]; rfl
  case ge => rw [← h, ← wrap32_truth, BinOp.apply]; rfl
  -- a shift to the left is a product, and products may be wrapped before or after
  case shl => rw [← h, BinOp.apply, shiftDistance_toInt, wrap32_eq, ofInt_shiftLeft]
  case shr =>
    rw [← h, BinOp.apply, shiftDistance_toInt, ← BitVec.toInt_sshiftRight, wrap32_toInt]
  case ushr =>
    rw [← h, BinOp.apply, shiftDistance_toInt, emod_toInt, wrap32_eq, ofInt_shiftRight]
  case or =>
    rw [← h, BinOp.apply, wrap32_eq, ofInt_or, BitVec.ofInt_toInt, BitVec.ofInt_toInt]
  case and =>
    rw [← h, BinOp.apply, wrap32_eq, ofInt_and, BitVec.ofInt_toInt, BitVec.ofInt_toInt]
  case xor =>
    rw [← h, BinOp.apply, wrap32_eq, ofInt_xor, BitVec.ofInt_toInt, BitVec.ofInt_toInt]

end TacFlow
