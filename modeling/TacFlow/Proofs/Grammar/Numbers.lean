import Mathlib.Algebra.Group.Nat.Defs
import TacFlow.Proofs.Grammar.Lexemes

/-!
# Numbers

The written form of an integer is a lexeme with the integer as its value, and none of the other lexemes
with this value has fewer digits.
-/

namespace TacFlow

namespace Decimal

theorem digitsValue_toDigits (n : Nat) : digitsValue (Nat.toDigits 10 n) = n := by
  have hfold : ∀ (ds : List Char) (init : Nat),
      ds.foldl (fun n c => n * 10 + (c.toNat - 48)) init = Nat.ofDigitChars 10 ds init := fun ds init => by
    rw [Nat.ofDigitChars_eq_foldl]
    simp [Nat.mul_comm]
  rw [digitsValue, hfold, Nat.ofDigitChars_ten_toDigits]

/-- A number is less than the power of ten with as many zeros as it has digits. -/
theorem digitsValue_lt {ds : List Char} (h : ∀ d ∈ ds, Text.isAsciiDigit d = true) :
    digitsValue ds < 10 ^ ds.length := by
  have hfold : ∀ init,
      ds.foldl (fun n c => n * 10 + (c.toNat - 48)) init < (init + 1) * 10 ^ ds.length := by
    induction ds with
    | nil => simp
    | cons d ds ih =>
        intro init
        have hd : d.toNat ≤ 57 := by
          have hle := (Bool.and_eq_true_iff.mp (h d List.mem_cons_self)).2
          exact of_decide_eq_true hle
        have hds := ih (fun e he => h e (List.mem_cons_of_mem d he)) (init * 10 + (d.toNat - 48))
        have hinit : init * 10 + (d.toNat - 48) + 1 ≤ (init + 1) * 10 := by omega
        calc _ < (init * 10 + (d.toNat - 48) + 1) * 10 ^ ds.length := hds
          _ ≤ (init + 1) * 10 * 10 ^ ds.length := Nat.mul_le_mul_right _ hinit
          _ = (init + 1) * 10 ^ (d :: ds).length := by rw [List.length_cons, pow_succ', Nat.mul_assoc]
  simpa [digitsValue] using hfold 0

end Decimal

namespace Grammar.Scanner

theorem isAsciiDigit_toDigits (n : Nat) : ∀ c ∈ Nat.toDigits 10 n, Text.isAsciiDigit c = true :=
  fun _ hc => Nat.isDigit_of_mem_toDigits (by decide) (by decide) hc

theorem toList_toString (n : Int) : (toString n).toList =
    if n < 0 then '-' :: Nat.toDigits 10 n.natAbs else Nat.toDigits 10 n.natAbs := by
  cases n with
  | ofNat m => exact Nat.toList_repr
  | negSucc m =>
      rw [if_pos (Int.negSucc_lt_zero m), Int.toString_eq_repr, Int.repr, String.toList_append,
        Nat.toList_repr]
      rfl

/-- The value of digits and of digits behind a minus sign, and how many digits there are. -/
theorem integer_spec {ds : List Char} (hds : ∀ d ∈ ds, Text.isAsciiDigit d = true) :
    (integerValue ds = Decimal.digitsValue ds ∧ digitCount ds = ds.length) ∧
      integerValue ('-' :: ds) = -(Decimal.digitsValue ds : Int) ∧ digitCount ('-' :: ds) = ds.length := by
  refine ⟨?_, rfl, rfl⟩
  cases ds with
  | nil => exact ⟨rfl, rfl⟩
  | cons d ds =>
      have hd : d ≠ '-' := (isAsciiDigit_spec (hds d List.mem_cons_self)).2.2.1
      constructor
      · rw [integerValue]
        exact fun _ heq => absurd (List.cons.inj heq).1 hd
      · rw [digitCount]
        exact fun _ heq => absurd (List.cons.inj heq).1 hd

theorem isInteger_toString (n : Int) : IsInteger (toString n).toList := by
  refine ⟨Nat.toDigits 10 n.natAbs, Nat.toDigits_ne_nil, isAsciiDigit_toDigits _, ?_⟩
  rw [toList_toString]
  split
  · exact Or.inr rfl
  · exact Or.inl rfl

/-- **An integer is read from its written form.** -/
theorem integerValue_toString (n : Int) : integerValue (toString n).toList = n := by
  obtain ⟨⟨hvalue, -⟩, hminus, -⟩ := integer_spec (isAsciiDigit_toDigits n.natAbs)
  rw [toList_toString]
  split
  · rw [hminus, Decimal.digitsValue_toDigits]
    omega
  · rw [hvalue, Decimal.digitsValue_toDigits]
    omega

/-- **No lexeme of an integer has fewer digits than its written form.** -/
theorem digitCount_toString_le {l : List Char} (h : IsInteger l) :
    digitCount (toString (integerValue l)).toList ≤ digitCount l := by
  have hcount : ∀ n : Int, digitCount (toString n).toList = (Nat.toDigits 10 n.natAbs).length := fun n => by
    obtain ⟨⟨-, hcount⟩, -, hminus⟩ := integer_spec (isAsciiDigit_toDigits n.natAbs)
    rw [toList_toString]
    split
    · exact hminus
    · exact hcount
  obtain ⟨ds, hne, hds, hl⟩ := h
  obtain ⟨⟨hvalue, hlength⟩, hminus, hlength'⟩ := integer_spec hds
  have hle : (Nat.toDigits 10 (Decimal.digitsValue ds)).length ≤ ds.length :=
    (Nat.length_toDigits_le_iff (by decide) (List.length_pos_iff.mpr hne)).mpr (Decimal.digitsValue_lt hds)
  rw [hcount]
  rcases hl with rfl | rfl
  · rw [hvalue, hlength, Int.natAbs_natCast]
    exact hle
  · rw [hminus, hlength', Int.natAbs_neg, Int.natAbs_natCast]
    exact hle

end Grammar.Scanner

end TacFlow
