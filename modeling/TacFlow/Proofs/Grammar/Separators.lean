import TacFlow.Grammar.Scanner

/-!
# Separators

What the scanner for blank space takes. A *separator* is white space and closed comments in any
mixture, and the scanner takes the longest one ahead: a text is split into a separator and a rest at
which the scanner takes nothing. Only at the end of the text a comment may end with its line.

So a separator is taken whatever follows, if nothing of it can be taken as well.
-/

namespace TacFlow.Grammar

/-- A text that has no blank space ahead. -/
def Settled (t : List Char) : Prop :=
  Scanner.blank t = some 0

namespace Scanner

/-- What remains of a separator from a state of the scan: all comments in it are closed. -/
inductive Separates : BlankState → List Char → Prop where
  | nil : Separates .between []
  | white {c : Char} {g : List Char} : Text.isWhite c = true → Separates .between g →
      Separates .between (c :: g)
  | line {g : List Char} : Separates .lineComment g → Separates .between ('/' :: '/' :: g)
  | block {g : List Char} : Separates .blockComment g → Separates .between ('/' :: '*' :: g)
  | lineEnd {g : List Char} : Separates .between g → Separates .lineComment ('\n' :: g)
  | inLine {c : Char} {g : List Char} : c ≠ '\n' → Separates .lineComment g →
      Separates .lineComment (c :: g)
  | blockEnd {g : List Char} : Separates .between g → Separates .blockComment ('*' :: '/' :: g)
  | inBlock {c : Char} {g : List Char} : (c = '*' → g.head? ≠ some '/') →
      Separates .blockComment g → Separates .blockComment (c :: g)

theorem Separates.ne_nil {g : List Char} (h : Separates .blockComment g) : g ≠ [] := by
  cases h <;> simp

/-- White space is a separator. -/
theorem separates_of_white {g : List Char} (h : ∀ c ∈ g, Text.isWhite c = true) :
    Separates .between g := by
  induction g with
  | nil => exact .nil
  | cons c g ih => exact .white (h c (by simp)) (ih fun d hd => h d (List.mem_cons_of_mem c hd))

/-- A slash is not white. -/
theorem ne_slash_of_isWhite {c : Char} (h : Text.isWhite c = true) : c ≠ '/' := by
  rintro rfl
  exact absurd h (by decide)

/-- **A separator is taken whole, and nothing behind it.** -/
theorem blankFrom_append {st : BlankState} {g : List Char} (h : Separates st g) {t : List Char}
    (ht : Settled t) : blankFrom st (g ++ t) = some g.length := by
  induction h with
  | nil => exact ht
  | white hc _ ih =>
      rw [List.cons_append, blankFrom, if_pos hc, ih]
      · rfl
      · exact fun _ hq => absurd hq (ne_slash_of_isWhite hc)
      · exact fun _ hq => absurd hq (ne_slash_of_isWhite hc)
  | line _ ih => rw [List.cons_append, List.cons_append, blankFrom, ih]; rfl
  | block _ ih => rw [List.cons_append, List.cons_append, blankFrom, ih]; rfl
  | lineEnd _ ih => rw [List.cons_append, blankFrom, if_pos rfl, ih]; rfl
  | inLine hc _ ih => rw [List.cons_append, blankFrom, if_neg hc, ih]; rfl
  | blockEnd _ ih => rw [List.cons_append, List.cons_append, blankFrom, ih]; rfl
  | @inBlock c g hc hg ih =>
      rw [List.cons_append, blankFrom, ih]
      · rfl
      · intro cs hstar hcs
        obtain ⟨d, g', rfl⟩ := List.exists_cons_of_ne_nil hg.ne_nil
        exact hc hstar (congrArg some (List.cons.inj hcs).1)

/-- **What is taken is a separator with nothing to take behind it**, unless it goes up to the end of the
text. -/
theorem exists_of_blankFrom {st : BlankState} {s : List Char} {n : Nat}
    (h : blankFrom st s = some n) :
    ∃ g t, s = g ++ t ∧ g.length = n ∧ (Separates st g ∧ Settled t ∨ t = []) := by
  fun_induction blankFrom st s generalizing n with
  | case1 => exact absurd h (by simp)
  | case2 st hst =>
      cases h
      exact ⟨[], [], rfl, rfl, Or.inr rfl⟩
  | case3 cs ih =>
      obtain ⟨k, hk, rfl⟩ := Option.map_eq_some_iff.mp h
      obtain ⟨g, t, rfl, rfl, hg⟩ := ih hk
      exact ⟨'/' :: '/' :: g, t, rfl, rfl, hg.imp_left fun hg => ⟨.line hg.1, hg.2⟩⟩
  | case4 cs k hk ih =>
      cases h
      obtain ⟨g, t, rfl, rfl, hg⟩ := ih hk
      exact ⟨'/' :: '*' :: g, t, rfl, rfl, hg.imp_left fun hg => ⟨.block hg.1, hg.2⟩⟩
  | case5 cs hk ih =>
      cases h
      refine ⟨[], '/' :: '*' :: cs, rfl, rfl, Or.inl ⟨.nil, ?_⟩⟩
      rw [Settled, blank, blankFrom, hk]
  | case6 c cs _ _ hc ih =>
      obtain ⟨k, hk, rfl⟩ := Option.map_eq_some_iff.mp h
      obtain ⟨g, t, rfl, rfl, hg⟩ := ih hk
      exact ⟨c :: g, t, rfl, rfl, hg.imp_left fun hg => ⟨.white hc hg.1, hg.2⟩⟩
  | case7 c cs hline hblock hc =>
      cases h
      refine ⟨[], c :: cs, rfl, rfl, Or.inl ⟨.nil, ?_⟩⟩
      rw [Settled, blank, blankFrom, if_neg hc]
      · exact hline
      · exact hblock
  | case8 c cs ih =>
      obtain ⟨k, hk, rfl⟩ := Option.map_eq_some_iff.mp h
      obtain ⟨g, t, rfl, rfl, hg⟩ := ih hk
      refine ⟨c :: g, t, rfl, rfl, hg.imp_left fun ⟨hg, ht⟩ => ⟨?_, ht⟩⟩
      by_cases hc : c = '\n'
      · subst hc
        exact .lineEnd hg
      · rw [if_neg hc] at hg
        exact .inLine hc hg
  | case9 cs ih =>
      obtain ⟨k, hk, rfl⟩ := Option.map_eq_some_iff.mp h
      obtain ⟨g, t, rfl, rfl, hg⟩ := ih hk
      exact ⟨'*' :: '/' :: g, t, rfl, rfl, hg.imp_left fun hg => ⟨.blockEnd hg.1, hg.2⟩⟩
  | case10 c cs hopen ih =>
      obtain ⟨k, hk, rfl⟩ := Option.map_eq_some_iff.mp h
      obtain ⟨g, t, rfl, rfl, hg⟩ := ih hk
      refine ⟨c :: g, t, rfl, rfl, hg.imp_left fun ⟨hg, ht⟩ => ⟨.inBlock ?_ hg, ht⟩⟩
      intro hstar hhead
      obtain ⟨d, g', rfl⟩ := List.exists_cons_of_ne_nil hg.ne_nil
      exact hopen (g' ++ t) hstar (by rw [Option.some.inj hhead]; rfl)

theorem settled_nil : Settled [] := rfl

/-- A text is split into the blank space ahead and a rest without any. -/
theorem blank_eq_some {s : List Char} {n : Nat} (h : blank s = some n) :
    ∃ g t, s = g ++ t ∧ g.length = n ∧ Settled t := by
  obtain ⟨g, t, hs, hn, hg⟩ := exists_of_blankFrom h
  refine ⟨g, t, hs, hn, ?_⟩
  rcases hg with ⟨_, ht⟩ | rfl
  · exact ht
  · exact settled_nil

/-- Blank space in front of a text that does not end is a separator. -/
theorem separates_of_blank {g t : List Char} (h : blank (g ++ t) = some g.length) (ht : t ≠ []) :
    Separates .between g := by
  obtain ⟨g', t', heq, hlength, hg⟩ := exists_of_blankFrom h
  obtain ⟨rfl, rfl⟩ := List.append_inj heq hlength.symm
  exact (hg.resolve_right ht).1

theorem settled_of_blank {g t : List Char} (h : blank (g ++ t) = some g.length) : Settled t := by
  obtain ⟨g', t', heq, hlength, ht⟩ := blank_eq_some h
  obtain ⟨rfl, rfl⟩ := List.append_inj heq hlength.symm
  exact ht

/-- **Blank space is taken in front of any other text that does not begin with some.** -/
theorem blank_congr {g t t' : List Char} (h : blank (g ++ t) = some g.length) (ht : t ≠ [])
    (ht' : Settled t') : blank (g ++ t') = some g.length :=
  blankFrom_append (separates_of_blank h ht) ht'

/-- White space is taken whole. -/
theorem blank_white {g t : List Char} (h : ∀ c ∈ g, Text.isWhite c = true) (ht : Settled t) :
    blank (g ++ t) = some g.length :=
  blankFrom_append (separates_of_white h) ht

/-- A text is settled if it begins with a character that is not white and begins no comment. -/
theorem settled_cons {c : Char} {t : List Char} (hc : Text.isWhite c = false)
    (ht : c = '/' → t.head? ≠ some '/' ∧ t.head? ≠ some '*') : Settled (c :: t) := by
  rw [Settled, blank, blankFrom, if_neg (by simp [hc])]
  · rintro cs rfl rfl
    exact (ht rfl).1 rfl
  · rintro cs rfl rfl
    exact (ht rfl).2 rfl

/-- Blank space that is not empty begins with white space or a slash. -/
theorem head_of_blank {c : Char} {g t : List Char} (h : blank (c :: g ++ t) = some (c :: g).length) :
    Text.isWhite c = true ∨ c = '/' := by
  by_cases hwhite : Text.isWhite c = true
  · exact Or.inl hwhite
  by_cases hslash : c = '/'
  · exact Or.inr hslash
  have hsettled : Settled (c :: g ++ t) :=
    settled_cons (by simpa using hwhite) fun hq => absurd hq hslash
  rw [hsettled] at h
  exact absurd h (by simp)

end Scanner

end TacFlow.Grammar
