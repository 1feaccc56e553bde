import TacFlow.Grammar.Error
import TacFlow.Proofs.Text.Lines

/-!
# Where a syntax error points

The line and the column of a syntax error count line feeds, so they are right for every text. The line that
its report quotes is looked up by that number among the lines of a split text, and it is the line of the error
as long as nothing but line feeds ends a line: it is cut short at another end of a line within it, and it is a
line from further up the text if a stray end stands before it.
-/

namespace TacFlow.SyntaxError

open Text (StandsOn isLineEnd splitLines strayEnds)

variable {text before line after : List Char} {pos : Nat} {message : String} {source : Option String}

/-! ## The quoted line -/

/-- Of the lines of a split text the quoted one stands behind as many as there are line feeds before the
line of the error. -/
theorem quotedLine_eq (h : StandsOn text pos before line after) :
    quotedLine ⟨message, text, pos, source⟩ = (splitLines text)[before.count '\n']?.getD [] := by
  rw [quotedLine, Int.toNat_natCast, h.lineAt_eq, Nat.add_sub_cancel]

/-- Without stray ends before it the line of the error is quoted, as far as the first end of a line. -/
theorem quotedLine_eq_takeWhile (h : StandsOn text pos before line after) (hstray : strayEnds before = 0) :
    quotedLine ⟨message, text, pos, source⟩ = line.takeWhile (!isLineEnd ·) := by
  rw [quotedLine_eq h, ← h.getElem?_splitLines, hstray, Nat.add_zero]

/-- With stray ends before it a line from further up is quoted, as many lines up as there are of them. -/
theorem getElem?_splitLines_before (h : StandsOn text pos before line after) (hstray : strayEnds before ≠ 0) :
    (splitLines before)[before.count '\n']? = some (quotedLine ⟨message, text, pos, source⟩) := by
  have hlt : before.count '\n' < (splitLines before).length := by
    rw [Text.length_splitLines h.whole]
    omega
  rw [quotedLine_eq h, h.text, Text.splitLines_append h.whole, List.getElem?_append_left hlt,
    List.getElem?_eq_getElem hlt, Option.getD_some]

/-- At every position of a text an error quotes the line that the position stands on. -/
def QuotesLines (text : List Char) : Prop :=
  ∀ message source pos before line after, StandsOn text pos before line after →
    quotedLine ⟨message, text, pos, source⟩ = line

/-- Errors quote their lines just in the texts whose lines all end in line feeds. -/
theorem quotesLines_iff : QuotesLines text ↔ ∀ c ∈ text, isLineEnd c = true → c = '\n' := by
  constructor
  · intro h c hc hend
    by_contra hfeed
    obtain ⟨pos, before, line, after, hstands, hstray, d, hmem, hdend⟩ :=
      Text.exists_end_mem_line hc hend hfeed
    -- the line is cut at that end
    have hwhole := h "" none pos before line after hstands
    rw [quotedLine_eq_takeWhile hstands hstray] at hwhole
    have hnone := List.takeWhile_eq_self_iff.mp hwhole d hmem
    rw [hdend] at hnone
    exact absurd hnone (by decide)
  · intro hfeeds message source pos before line after h
    have hbefore : ∀ c ∈ before, isLineEnd c = true → c = '\n' := fun c hc =>
      hfeeds c (h.text ▸ List.mem_append_left _ hc)
    have hline : ∀ c ∈ line, (!isLineEnd c) = true := by
      intro c hc
      rw [Bool.not_eq_true', Bool.eq_false_iff]
      intro hend
      have hmem : c ∈ text := h.text ▸ List.mem_append_right _ (List.mem_append_left _ hc)
      exact h.feedless (hfeeds c hmem hend ▸ hc)
    rw [quotedLine_eq_takeWhile h (Text.strayEnds_eq_zero hbefore), List.takeWhile_eq_self_iff.mpr hline]

/-! ## Reports -/

/-- What an error says of a position that stands on a line. -/
structure Tells (e : SyntaxError) (pos : Nat) (before line : List Char) : Prop where
  /-- One more than the line feeds before the position. -/
  line_eq : e.line = before.count '\n' + 1
  /-- One more than the characters of its line before the position. -/
  column_eq : e.column = (pos - before.length : Nat) + 1
  /-- The report quotes a line, and puts a caret below as far in as the position is. -/
  report_eq : e.report = sourceName e.source ++ ":" ++ toString (before.count '\n' + 1) ++ ":" ++
    toString (pos - before.length + 1) ++ ": " ++ e.message ++ "\n  " ++ String.ofList e.quotedLine ++
    "\n  " ++ String.ofList (List.replicate (pos - before.length) ' ') ++ "^"
  /-- The line is that of the position unless stray ends stand before it, as far as its first end. -/
  quotes : strayEnds before = 0 → e.quotedLine = line.takeWhile (!isLineEnd ·)
  /-- Otherwise it is one from further up: of the lines before, the one with the number of the line. -/
  quotes_above : strayEnds before ≠ 0 → (splitLines before)[before.count '\n']? = some e.quotedLine
  /-- The caret is under the character at the position if the line is that of the position. -/
  caret {c : Char} : e.quotedLine = line → e.text[pos]? = some c → c ≠ '\n' →
    e.quotedLine[pos - before.length]? = some c

theorem tells (hne : text ≠ []) (h : StandsOn text pos before line after) :
    Tells ⟨message, text, pos, source⟩ pos before line := by
  have hplace : hasPlace ⟨message, text, pos, source⟩ = true := by
    simp [hasPlace, hne]
  have hline : SyntaxError.line ⟨message, text, pos, source⟩ = before.count '\n' + 1 := by
    rw [SyntaxError.line, if_pos hplace, Int.toNat_natCast, h.lineAt_eq]
    rfl
  have hcolumn : column ⟨message, text, pos, source⟩ = (pos - before.length : Nat) + 1 := by
    rw [column, if_pos hplace, Int.toNat_natCast, h.columnAt_eq]
    rfl
  refine ⟨hline, hcolumn, ?_, quotedLine_eq_takeWhile h, getElem?_splitLines_before h, ?_⟩
  · rw [report, if_pos hplace, hline, hcolumn]
    rfl
  · intro c hquoted hc hfeed
    rw [hquoted]
    exact h.getElem?_line hc hfeed

/-- Where the errors of a text point. -/
structure Locates (text : List Char) : Prop where
  /-- Every position stands on a line. -/
  stands {pos : Nat} : pos ≤ text.length → ∃ before line after, StandsOn text pos before line after
  /-- An error tells where it stands. -/
  tells {pos : Nat} {before line after : List Char} (message : String) (source : Option String) :
    StandsOn text pos before line after → Tells ⟨message, text, pos, source⟩ pos before line
  /-- The lines that errors quote are all right just if all lines end in line feeds. -/
  quotes : QuotesLines text ↔ ∀ c ∈ text, isLineEnd c = true → c = '\n'

/-- **A syntax error points at its line and column**, and it quotes that line in a text without other ends
of lines than line feeds. -/
theorem locates (hne : text ≠ []) : Locates text :=
  ⟨Text.exists_standsOn, fun _ _ h => SyntaxError.tells hne h, quotesLines_iff⟩

/-- The error at the end of a text of two lines quotes the second. -/
theorem locates_two_lines :
    ['a', '\n', 'b'] ≠ [] ∧ Locates ['a', '\n', 'b'] ∧
      quotedLine ⟨"", ['a', '\n', 'b'], 3, none⟩ = ['b'] := by
  have h : Locates ['a', '\n', 'b'] := locates (by decide)
  have hstands : StandsOn ['a', '\n', 'b'] 3 ['a', '\n'] ['b'] [] :=
    ⟨rfl, by simp [Text.Whole], by decide, by simp [Text.Breaks], by decide, by decide⟩
  exact ⟨by decide, h, h.quotes.mpr (by simp [isLineEnd]) "" none 3 _ _ _ hstands⟩

/-- Behind a comment that ends in a form feed the empty line between the form feed and the line feed is
quoted, and not the line of the error. -/
theorem not_quotesLines_form_feed : ¬ QuotesLines "//\x0c\nclass \x7b\x7d".toList := by
  intro h
  have hstands : StandsOn "//\x0c\nclass \x7b\x7d".toList 10 ['/', '/', '\x0c', '\n']
      "class \x7b\x7d".toList [] :=
    ⟨rfl, by simp [Text.Whole], by decide, by simp [Text.Breaks], by decide, by decide⟩
  have hempty : quotedLine ⟨"", "//\x0c\nclass \x7b\x7d".toList, (10 : Nat), none⟩ = [] := by decide
  exact absurd (hempty.symm.trans (h "" none 10 _ _ _ hstands)) (by decide)

end TacFlow.SyntaxError
