import TacFlow.Proofs.Program.Erasure

/-!
# Layout

A text that is read is a row of lexemes with separators in front of them and between them: white space and
comments in any mixture. What stands in a separator is irrelevant as long as it stays blank: with white
space in its place the text is the same row of lexemes, so it is read as the same program.
-/

namespace TacFlow.Grammar

open Source Scanner

variable {g l s t ws before gap after : List Char} {classes : List Source.Class}

/-- The blank space in front of all tokens, or behind the lexeme of one of them, in a text that is spelled
by the tokens of some classes. -/
inductive Separator (classes : List Source.Class) : List Char → List Char → List Char → Prop where
  | front {gap after : List Char} : Scanner.blank (gap ++ after) = some gap.length →
      Spells none (programTokens classes) after [] → Separator classes [] gap after
  | behind {g l lexeme gap after : List Char} {ts us : List Token} {k : Token} :
      programTokens classes = ts ++ k :: us → k.isVisible = true →
      Scanner.blank (g ++ (l ++ (lexeme ++ (gap ++ after)))) = some g.length →
      Spells none ts (l ++ (lexeme ++ (gap ++ after))) (lexeme ++ (gap ++ after)) →
      k.Lexes lexeme (gap ++ after) → Scanner.blank (gap ++ after) = some gap.length →
      Spells none us after [] → Separator classes (g ++ (l ++ lexeme)) gap after

/-- A stretch of a text is blank space between the tokens that the text is read into. The grammar takes
blank space in front of all tokens and behind each lexeme, as much as there is, and nowhere else: there
is none inside a dotted name or a type. -/
def IsSeparator (before gap after : List Char) : Prop :=
  ∃ classes, parse (before ++ (gap ++ after)) = .ok classes ∧ Separator classes before gap after

/-- Behind a character, blank space of one kind looks like blank space of another. -/
theorem ahead_cons_blank {c : Char} (l : List Char) (hgap : Scanner.blank (gap ++ after) = some gap.length)
    (hne : gap ≠ []) (hws : Scanner.blank (ws ++ after) = some ws.length) (hne' : ws ≠ []) :
    ahead (c :: l ++ (gap ++ after)) = ahead (c :: l ++ (ws ++ after)) := by
  have hflag : ∀ {w}, Scanner.blank (w ++ after) = some w.length → w ≠ [] →
      (ahead (c :: l ++ (w ++ after))).2 = (ahead (c :: l ++ [' '])).2 := by
    intro w hw hne
    obtain ⟨x, w, rfl, hx, hmem⟩ := head_blank hw hne
    have hspace : isNameStart ' ' = false := by decide
    simp only [List.mem_cons, not_or] at hmem
    cases l with
    | cons d l =>
        by_cases hdot : c = '.'
        · subst hdot; rfl
        · by_cases hbracket : c = '['
          · subst hbracket; rfl
          · simp [ahead, hdot, hbracket]
    | nil =>
        by_cases hdot : c = '.'
        · subst hdot
          simp [ahead, hx, hspace]
        · by_cases hbracket : c = '['
          · subst hbracket
            simp [ahead, hmem.2.2.1]
          · simp [ahead, hdot, hbracket]
  exact Prod.ext rfl ((hflag hgap hne).trans (hflag hws hne').symm)

/-- White space in the place of a separator spells the same tokens. -/
theorem Separator.exchange (h : Separator classes before gap after) (hne : gap ≠ []) (hne' : ws ≠ [])
    (hwhite : ∀ c ∈ ws, Text.isWhite c = true) : ∃ g s, before ++ (ws ++ after) = g ++ s ∧
      Scanner.blank (g ++ s) = some g.length ∧ Spells none (programTokens classes) s [] := by
  cases h with
  | front hblank hspells =>
      exact ⟨ws, after, rfl, blank_white hwhite (settled_of_blank hblank), hspells⟩
  | @behind g l lexeme _ _ ts us k htokens hk hfront hspells hlexes hblank hrest =>
      have hws := blank_white hwhite (settled_of_blank hblank)
      obtain ⟨c, ws', rfl⟩ := List.exists_cons_of_ne_nil hne'
      have hdelimits : Delimits c := delimits_of_isWhite (hwhite c List.mem_cons_self)
      have hlexes' : k.Lexes lexeme (c :: ws' ++ after) := hlexes.delimited hdelimits _
      obtain ⟨d, ds, rfl, _⟩ := hlexes.exists_cons hk
      obtain ⟨z, hz, hspells', hsettled⟩ := hspells.exchange (by simp)
        (ahead_cons_blank ds hblank hne hws hne') (hlexes'.settled hk)
      obtain rfl : z = l := (List.append_cancel_right hz).symm
      refine ⟨g, z ++ (d :: ds ++ (c :: ws' ++ after)), by simp, ?_, ?_⟩
      · exact blank_congr hfront (by simp) hsettled
      · rw [htokens]
        refine spells_append.mpr ⟨_, hspells', after, (next_iff hk).mpr ?_, hrest⟩
        exact ⟨d :: ds, c :: ws', rfl, hlexes', hws⟩

end TacFlow.Grammar

namespace TacFlow

open Grammar

/-- **Layout and comments are irrelevant.** White space in the place of a separator gives a text that is
read as the same program, up to the lines of the statements. -/
theorem Program.exists_ofText_of_isSeparator [Nesting] {before gap after ws : List Char}
    {main source : Option String} {p : Program}
    (hp : Program.ofText (before ++ (gap ++ after)) main source = .ok p)
    (hgap : IsSeparator before gap after) (hne : gap ≠ []) (hne' : ws ≠ [])
    (hwhite : ∀ c ∈ ws, Text.isWhite c = true) :
    ∃ p', Program.ofText (before ++ (ws ++ after)) main source = .ok p' ∧ p'.unlined = p.unlined := by
  obtain ⟨classes, hparse, hseparator⟩ := hgap
  obtain ⟨g, s, htext, hblank, hspells⟩ := hseparator.exchange hne hne' hwhite
  obtain ⟨read, hread, hsame⟩ := exists_parse_of_spells (written_of_parse hparse) hblank hspells
  rw [← htext] at hread
  exact Program.exists_ofText_of_unplaced hp hparse hread hsame rfl
    (Program.not_tooLong_of_ofText hparse hp)

/-- A comment separates the word from the name of a class. -/
theorem isSeparator_comment :
    IsSeparator ['c', 'l', 'a', 's', 's'] ['/', '/', ' ', 'o', 'n', 'e', '\n'] ['A', '{', '}'] := by
  have hname : (Token.name "A").Lexes ['A'] ['{', '}'] := by
    refine ⟨by simp, ⟨by decide, .nil⟩, ?_, (Scanner.endsName_cons (by decide)).mpr (by decide)⟩
    unfold Scanner.Unreserved
    decide +kernel
  have hrest : Spells none [.name "A", .punct '{', .punct '}'] ['A', '{', '}'] [] :=
    ⟨_, ⟨['A'], [], rfl, hname, by decide +kernel⟩,
      _, ⟨['{'], [], rfl, ⟨rfl, by decide⟩, by decide +kernel⟩,
      _, ⟨['}'], [], rfl, ⟨rfl, by decide⟩, by decide +kernel⟩, rfl⟩
  have hword : (Token.word "class").Lexes ['c', 'l', 'a', 's', 's']
      ['/', '/', ' ', 'o', 'n', 'e', '\n', 'A', '{', '}'] :=
    ⟨by simp, by decide, by rintro c ⟨⟩; decide⟩
  have htokens : Source.programTokens [⟨"A", false, false, [], [], [], 0⟩] =
      [Token.mark 0] ++ Token.word "class" :: [.name "A", .punct '{', .punct '}'] := rfl
  refine ⟨[⟨"A", false, false, [], [], [], 0⟩], Resolve.eq_ok_of_toOption (by decide +kernel), ?_⟩
  exact Separator.behind (g := []) (l := []) htokens rfl (by decide +kernel)
    ⟨_, ⟨rfl, by simp⟩, rfl⟩ hword (by decide +kernel) hrest

theorem Program.exists_ofText_of_isSeparator_comment :
    ∃ p, Program.ofText ("class".toList ++ ("// one\n".toList ++ "A\x7b\x7d".toList)) none none = .ok p ∧
      ∃ p', Program.ofText ("class".toList ++ ("\t".toList ++ "A\x7b\x7d".toList)) none none = .ok p' ∧
        p'.unlined = p.unlined := by
  obtain ⟨p, hp⟩ := Option.isSome_iff_exists.mp (by decide +kernel : (Program.ofText
    (['c', 'l', 'a', 's', 's'] ++ (['/', '/', ' ', 'o', 'n', 'e', '\n'] ++ ['A', '{', '}']))
      none none).toOption.isSome = true)
  have hp := Resolve.eq_ok_of_toOption hp
  exact ⟨p, hp, Program.exists_ofText_of_isSeparator hp isSeparator_comment (by decide)
    (by decide) (List.all_eq_true.mp (by decide))⟩

end TacFlow
