import TacFlow.Text.Class

/-!
# Characters

What is known of the characters of a class because the class is small enough to be gone through: the
ASCII characters, and white space.
-/

namespace TacFlow.Text

/-- What can be tested of each ASCII character holds of all of them. -/
theorem forall_ascii (P : Char → Prop) [DecidablePred P]
    (h : ∀ n : Fin 128, decide (P (Char.ofNat n)) = true) {c : Char} (hc : c.toNat < 128) : P c := by
  have hn := of_decide_eq_true (h ⟨c.toNat, hc⟩)
  rwa [Char.ofNat_toNat] at hn

theorem toNat_lt_of_isAsciiWord {c : Char} (h : isAsciiWord c = true) : c.toNat < 128 := by
  have hletter : isAsciiLetter c = true → c.toNat < 128 := by
    simp only [isAsciiLetter, Bool.or_eq_true, Bool.and_eq_true, decide_eq_true_eq]
    rintro (⟨_, hc⟩ | ⟨_, hc⟩)
    · exact Nat.lt_of_le_of_lt (show c.toNat ≤ 'z'.toNat from hc) (by decide)
    · exact Nat.lt_of_le_of_lt (show c.toNat ≤ 'Z'.toNat from hc) (by decide)
  have hdigit : isAsciiDigit c = true → c.toNat < 128 := by
    simp only [isAsciiDigit, Bool.and_eq_true, decide_eq_true_eq]
    rintro ⟨_, hc⟩
    exact Nat.lt_of_le_of_lt (show c.toNat ≤ '9'.toNat from hc) (by decide)
  simp only [isAsciiWord, Bool.or_eq_true, beq_iff_eq] at h
  rcases h with (h | h) | rfl
  · exact hletter h
  · exact hdigit h
  · decide

/-- The code points of white space. -/
def whitePoints : List Nat :=
  [0x9, 0xa, 0xb, 0xc, 0xd, 0x20, 0x85, 0xa0, 0x1680, 0x2000, 0x2001, 0x2002, 0x2003, 0x2004, 0x2005,
    0x2006, 0x2007, 0x2008, 0x2009, 0x200a, 0x2028, 0x2029, 0x202f, 0x205f, 0x3000]

/-- What can be tested of each white character holds of all of them. -/
theorem forall_white (P : Char → Prop) [DecidablePred P]
    (h : ∀ n ∈ whitePoints, decide (P (Char.ofNat n)) = true) {c : Char} (hc : isWhite c = true) :
    P c := by
  have hmem : c.toNat ∈ whitePoints := by
    simp only [isWhite, Category.mem, List.any_cons, List.any_nil, Bool.or_false, Bool.or_eq_true,
      Bool.and_eq_true, decide_eq_true_eq] at hc
    simp only [whitePoints, List.mem_cons, List.not_mem_nil, or_false]
    omega
  have hn := of_decide_eq_true (h c.toNat hmem)
  rwa [Char.ofNat_toNat] at hn

end TacFlow.Text
