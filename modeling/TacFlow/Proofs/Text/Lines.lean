import Mathlib.Data.List.DropRight
import Mathlib.Data.List.TakeWhile
import TacFlow.Text.Lines

/-!
# The line of a position

A position of a text stands on one line: the stretch around it that holds no line feed. Number and column
of a position are those of that line. The lines that a text is split into are others if the text has ends of
lines which are no line feeds: each of them that lies in front of a position puts the line of the position one
place further down the split than its number tells.
-/

namespace TacFlow.Text

variable {cs before line after rest : List Char} {pos : Nat} {c : Char}

/-! ## Where a position stands -/

/-- A stretch of whole lines: it is empty or ends in a line feed. -/
def Whole (cs : List Char) : Prop :=
  ∀ c ∈ cs.getLast?, c = '\n'

/-- Nothing, or a line feed and more. -/
def Breaks (cs : List Char) : Prop :=
  ∀ c ∈ cs.head?, c = '\n'

/-- A position of a text stands on a line, with whole lines before it. -/
structure StandsOn (cs : List Char) (pos : Nat) (before line after : List Char) : Prop where
  text : cs = before ++ (line ++ after)
  whole : Whole before
  feedless : '\n' ∉ line
  breaks : Breaks after
  left : before.length ≤ pos
  right : pos ≤ before.length + line.length

theorem takeWhile_append_of_breaks {p : Char → Bool} (hfeed : p '\n' = false) (hafter : Breaks after) :
    (line ++ after).takeWhile p = line.takeWhile p := by
  have hnil : after.takeWhile p = [] := by
    cases after with
    | nil => rfl
    | cons c after =>
        obtain rfl := hafter c (by simp)
        rw [List.takeWhile_cons_of_neg (by simp [hfeed])]
  rw [List.takeWhile_append, hnil, List.append_nil]
  split
  · rename_i hall
    exact ((List.takeWhile_prefix p).eq_of_length hall).symm
  · rfl

/-- Every position of a text stands on a line. -/
theorem exists_standsOn (h : pos ≤ cs.length) : ∃ before line after, StandsOn cs pos before line after := by
  let p : Char → Bool := (· != '\n')
  have hsplit : (cs.take pos).rdropWhile p ++ (cs.take pos).rtakeWhile p = cs.take pos :=
    List.rdropWhile_append_rtakeWhile
  have hlength : ((cs.take pos).rdropWhile p).length + ((cs.take pos).rtakeWhile p).length = pos := by
    rw [← List.length_append, hsplit, List.length_take, Nat.min_eq_left h]
  refine ⟨(cs.take pos).rdropWhile p, (cs.take pos).rtakeWhile p ++ (cs.drop pos).takeWhile p,
    (cs.drop pos).dropWhile p, ?_, ?_, ?_, ?_, ?_, ?_⟩
  · rw [List.append_assoc, List.takeWhile_append_dropWhile, ← List.append_assoc, hsplit,
      List.take_append_drop]
  · intro c hc
    obtain ⟨hne, rfl⟩ := List.mem_getLast?_eq_getLast hc
    simpa [p] using List.rdropWhile_last_not p (cs.take pos) hne
  · intro hmem
    rcases List.mem_append.mp hmem with hmem | hmem
    · simpa [p] using List.mem_rtakeWhile_imp hmem
    · simpa [p] using List.mem_takeWhile_imp hmem
  · intro c hc
    have := List.head?_dropWhile_not p (cs.drop pos)
    rw [hc] at this
    simpa [p] using this
  · omega
  · rw [List.length_append]
    omega

namespace StandsOn

/-- The part of a text before a position is made of the lines before it and the line as far as there. -/
theorem take_eq (h : StandsOn cs pos before line after) :
    cs.take pos = before ++ line.take (pos - before.length) := by
  have hright := h.right
  rw [h.text, List.take_append, List.take_of_length_le h.left,
    List.take_append_of_le_length (by omega)]

/-- The number of a line counts the line feeds before it. -/
theorem lineAt_eq (h : StandsOn cs pos before line after) : lineAt cs pos = before.count '\n' + 1 := by
  have hnone : (line.take (pos - before.length)).count '\n' = 0 :=
    List.count_eq_zero.mpr fun hmem => h.feedless (List.mem_of_mem_take hmem)
  rw [lineAt, h.take_eq, List.count_append, hnone, Nat.add_zero]

theorem lineStart_eq (h : StandsOn cs pos before line after) : lineStart cs pos = before.length := by
  have hfree : ∀ c ∈ (line.take (pos - before.length)).reverse, (c != '\n') = true := by
    intro c hc
    have hmem := List.mem_of_mem_take (List.mem_reverse.mp hc)
    exact bne_iff_ne.mpr (ne_of_mem_of_not_mem hmem h.feedless)
  have hstop : before.reverse.takeWhile (· != '\n') = [] := by
    cases hb : before.reverse with
    | nil => rfl
    | cons c rest =>
        obtain rfl := h.whole c (by rw [← List.head?_reverse, hb]; rfl)
        rfl
  rw [lineStart, h.take_eq, List.reverse_append, List.takeWhile_append_of_pos hfree, hstop]
  simp

/-- The column of a position counts the characters of its line before it. -/
theorem columnAt_eq (h : StandsOn cs pos before line after) :
    columnAt cs pos = pos - before.length + 1 := by
  rw [columnAt, h.lineStart_eq]

/-- What stands at a position stands on its line, unless it is the line feed behind it. -/
theorem getElem?_line (h : StandsOn cs pos before line after) (hc : cs[pos]? = some c) (hne : c ≠ '\n') :
    (line)[pos - before.length]? = some c := by
  rw [h.text, List.getElem?_append_right h.left] at hc
  rcases Nat.lt_or_ge (pos - before.length) line.length with hlt | hge
  · rwa [List.getElem?_append_left hlt] at hc
  · have hright := h.right
    rw [List.getElem?_append_right hge, show pos - before.length - line.length = 0 by omega,
      ← List.head?_eq_getElem?] at hc
    exact absurd (h.breaks c hc) hne

end StandsOn

/-! ## The lines of a split text -/

/-- The ends of lines in a text that are no line feeds and do not belong to one. -/
def strayEnds : List Char → Nat
  | [] => 0
  | '\r' :: '\n' :: cs => strayEnds cs
  | c :: cs => (if isLineEnd c && c != '\n' then 1 else 0) + strayEnds cs

theorem Whole.tail (h : Whole (c :: cs)) : Whole cs := by
  intro d hd
  refine h d ?_
  cases cs with
  | nil => cases hd
  | cons e cs => rwa [List.getLast?_cons_cons]

theorem isLineEnd_of_whole_singleton (h : Whole [c]) : isLineEnd c = true := by
  obtain rfl := h c rfl
  rfl

theorem splitLines_cons_of_end (hend : isLineEnd c = true)
    (hpair : ∀ cs', c = '\r' → cs = '\n' :: cs' → False) :
    splitLines (c :: cs) = [] :: splitLines cs := by
  rw [splitLines.eq_3 c cs hpair, if_pos hend]

theorem splitLines_cons_of_not_end (hend : isLineEnd c = false) :
    splitLines (c :: cs) = consToFirst c (splitLines cs) := by
  have hpair : ∀ cs', c = '\r' → cs = '\n' :: cs' → False := by
    rintro _ rfl -
    exact absurd hend (by decide)
  rw [splitLines.eq_3 c cs hpair, if_neg (by simp [hend])]

theorem splitLines_ne_nil (h : cs ≠ []) : splitLines cs ≠ [] := by
  fun_cases splitLines cs with
  | case1 => exact absurd rfl h
  | case2 cs => simp
  | case3 c cs hpair hend => simp
  | case4 c cs hpair hend => cases splitLines cs <;> simp [consToFirst]

theorem consToFirst_append {lines : List (List Char)} (h : lines ≠ []) (more : List (List Char)) :
    consToFirst c (lines ++ more) = consToFirst c lines ++ more := by
  cases lines with
  | nil => exact absurd rfl h
  | cons line lines => rfl

theorem length_consToFirst {lines : List (List Char)} (h : lines ≠ []) :
    (consToFirst c lines).length = lines.length := by
  cases lines with
  | nil => exact absurd rfl h
  | cons line lines => rfl

/-- Behind whole lines the rest of a text is split by itself. -/
theorem splitLines_append (h : Whole before) :
    splitLines (before ++ rest) = splitLines before ++ splitLines rest := by
  fun_induction splitLines before with
  | case1 => rfl
  | case2 cs ih =>
      rw [List.cons_append, List.cons_append, splitLines, ih h.tail.tail, List.cons_append]
  | case3 c cs hpair hend ih =>
      -- a carriage return at the end would not be a whole line, so no line feed behind it is taken in
      have hpair' : ∀ cs', c = '\r' → cs ++ rest = '\n' :: cs' → False := by
        rintro cs' rfl hcs
        cases cs with
        | nil => exact absurd (h '\r' rfl) (by decide)
        | cons d cs =>
            obtain ⟨rfl, -⟩ := List.cons.inj hcs
            exact hpair cs rfl rfl
      rw [List.cons_append, splitLines_cons_of_end hend hpair', ih h.tail, List.cons_append]
  | case4 c cs hpair hend ih =>
      have hend : isLineEnd c = false := by simpa using hend
      have hne : cs ≠ [] := by
        rintro rfl
        exact absurd (isLineEnd_of_whole_singleton h) (by simp [hend])
      rw [List.cons_append, splitLines_cons_of_not_end hend, ih h.tail,
        consToFirst_append (splitLines_ne_nil hne)]

/-- Whole lines are split at each line feed and at each stray end. -/
theorem length_splitLines (h : Whole cs) :
    (splitLines cs).length = cs.count '\n' + strayEnds cs := by
  fun_induction splitLines cs with
  | case1 => rfl
  | case2 cs ih =>
      rw [List.length_cons, ih h.tail.tail, strayEnds]
      simp
      omega
  | case3 c cs hpair hend ih =>
      rw [List.length_cons, ih h.tail, strayEnds.eq_3 c cs hpair, hend, List.count_cons]
      by_cases hfeed : c = '\n' <;> simp [hfeed] <;> omega
  | case4 c cs hpair hend ih =>
      have hend : isLineEnd c = false := by simpa using hend
      have hne : cs ≠ [] := by
        rintro rfl
        exact absurd (isLineEnd_of_whole_singleton h) (by simp [hend])
      have hfeed : c ≠ '\n' := by
        rintro rfl
        exact absurd hend (by decide)
      rw [length_consToFirst (splitLines_ne_nil hne), ih h.tail, strayEnds.eq_3 c cs hpair, hend,
        List.count_cons]
      simp [hfeed]

/-- The first line of a text goes as far as the first end of a line. -/
theorem head_splitLines (cs : List Char) :
    (splitLines cs)[0]?.getD [] = cs.takeWhile (!isLineEnd ·) := by
  fun_induction splitLines cs with
  | case1 => rfl
  | case2 cs ih => rfl
  | case3 c cs hpair hend ih => simp [hend]
  | case4 c cs hpair hend ih =>
      rw [List.takeWhile_cons_of_pos (by simpa using hend), ← ih]
      cases splitLines cs <;> rfl

/-- The line of a position stands in the split as far down as there are line feeds and stray ends before it,
and there it goes as far as the first end of a line within it. -/
theorem StandsOn.getElem?_splitLines (h : StandsOn cs pos before line after) :
    (splitLines cs)[before.count '\n' + strayEnds before]?.getD [] = line.takeWhile (!isLineEnd ·) := by
  rw [← length_splitLines h.whole, h.text, splitLines_append h.whole,
    List.getElem?_append_right (Nat.le_refl _), Nat.sub_self, head_splitLines,
    takeWhile_append_of_breaks rfl h.breaks]

/-- What holds at each character of a text with what stands behind it holds at the first and at the others. -/
theorem forall_split_cons {P : Char → List Char → Prop} :
    (∀ before d after, c :: cs = before ++ d :: after → P d after) ↔
      P c cs ∧ ∀ before d after, cs = before ++ d :: after → P d after := by
  constructor
  · intro h
    exact ⟨h [] c cs rfl, fun before d after hcs => h (c :: before) d after (by rw [hcs, List.cons_append])⟩
  · rintro ⟨hfirst, hrest⟩ before d after hcs
    cases before with
    | nil =>
        obtain ⟨rfl, rfl⟩ := List.cons.inj hcs
        exact hfirst
    | cons e before => exact hrest before d after (List.cons.inj hcs).2

/-- There are no stray ends if every end of a line is a line feed, or a carriage return with a line feed
behind it. -/
theorem strayEnds_eq_zero_iff : strayEnds cs = 0 ↔
    ∀ before c after, cs = before ++ c :: after → isLineEnd c = true →
      c = '\n' ∨ c = '\r' ∧ after.head? = some '\n' := by
  fun_induction strayEnds cs with
  | case1 => simp
  | case2 cs ih =>
      rw [ih, forall_split_cons, forall_split_cons]
      simp
  | case3 c cs hpair ih =>
      have hfirst : (isLineEnd c = true → c = '\n' ∨ c = '\r' ∧ cs.head? = some '\n') ↔
          (isLineEnd c = true → c = '\n') := by
        refine imp_congr_right fun _ => or_iff_left ?_
        rintro ⟨hc, hcs⟩
        obtain ⟨cs', rfl⟩ := List.head?_eq_some_iff.mp hcs
        exact hpair cs' hc rfl
      rw [forall_split_cons, hfirst, Nat.add_eq_zero_iff, ih]
      simp

theorem strayEnds_eq_zero (h : ∀ c ∈ cs, isLineEnd c = true → c = '\n') : strayEnds cs = 0 :=
  strayEnds_eq_zero_iff.mpr fun _ c _ hcs hend => Or.inl (h c (by simp [hcs]) hend)

/-- In a text with ends of lines that are no line feeds one of them stands within a line that has no stray
ends before it: the first. -/
theorem exists_end_mem_line (hc : c ∈ cs) (hend : isLineEnd c = true) (hfeed : c ≠ '\n') :
    ∃ pos before line after, StandsOn cs pos before line after ∧ strayEnds before = 0 ∧
      ∃ d ∈ line, isLineEnd d = true := by
  have hsome : (cs.find? fun d => isLineEnd d && d != '\n').isSome = true :=
    List.find?_isSome.mpr ⟨c, hc, by simp [hend, hfeed]⟩
  obtain ⟨d, hd⟩ := Option.isSome_iff_exists.mp hsome
  obtain ⟨hdend, l, r, hcs, hfirst⟩ := List.find?_eq_some_iff_append.mp hd
  obtain ⟨hdend, hdfeed⟩ : isLineEnd d = true ∧ d ≠ '\n' := by simpa using hdend
  obtain ⟨before, line, after, hstands⟩ :=
    exists_standsOn (show l.length ≤ cs.length by rw [hcs, List.length_append]; omega)
  refine ⟨l.length, before, line, after, hstands, strayEnds_eq_zero fun e he heend => ?_, d, ?_, hdend⟩
  · have hinit : before <+: l :=
      List.prefix_of_prefix_length_le ⟨_, hstands.text.symm⟩ ⟨_, hcs.symm⟩ hstands.left
    simpa [heend] using hfirst e (hinit.subset he)
  · refine List.mem_of_getElem? (hstands.getElem?_line ?_ hdfeed)
    rw [hcs, List.getElem?_append_right (Nat.le_refl _), Nat.sub_self]
    rfl

end TacFlow.Text
