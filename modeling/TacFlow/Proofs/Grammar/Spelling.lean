import TacFlow.Proofs.Grammar.Tokens

/-!
# Spelling

`Spells` says that one token after the other is ahead, each with the blank space behind it. The
productions for tokens read exactly such stretches, and a production refuses a text that begins with a
token which it does not begin with.

What follows a row of tokens may be exchanged for a text that looks the same ahead.
-/

namespace TacFlow.Grammar

open Source Rule Scanner

variable {k : Token} {ts us : List Token} {N : Option Nat} {l g s s' t t' u : List Char}
  {c d e : Cursor}

/-! ## Lexemes at the front -/

/-- The characters that a token may begin with. -/
def Token.heads : Token → Char → Bool
  | mark _, _ => true
  | word _, c | name _, c | ident _, c | type _, c => isNameStart c
  | punct p, c => c == p
  | int _, c => Text.isAsciiDigit c || c == '-'
  | init _, c => c == '<'
  | op o, c | cond o, c => o.symbol.toList.head? == some c

/-- The tokens that have a lexeme of at least one character. -/
def Token.isVisible : Token → Bool
  | mark _ => false
  | _ => true

theorem heads_of_keyword {w : String} (hw : w ∈ keywords) :
    ∃ c cs, w.toList = c :: cs ∧ isNameStart c = true := by
  have hall : ∀ w ∈ keywords, (w.toList.head?.map isNameStart) = some true := by decide +kernel
  obtain ⟨c, hc, hstart⟩ := Option.map_eq_some_iff.mp (hall w hw)
  obtain ⟨cs, hcs⟩ := List.head?_eq_some_iff.mp hc
  exact ⟨c, cs, hcs, hstart⟩

theorem exists_cons_of_isName (h : IsName l) : ∃ c cs, l = c :: cs ∧ isNameStart c = true := by
  cases l with
  | nil => exact absurd h id
  | cons c cs => exact ⟨c, cs, rfl, h.1⟩

theorem exists_cons_of_isDotted (h : IsDotted l) : ∃ c cs, l = c :: cs ∧ isNameStart c = true := by
  cases l with
  | nil => exact absurd h id
  | cons c cs => exact ⟨c, cs, rfl, h.1⟩

theorem exists_cons_of_isInteger (h : IsInteger l) :
    ∃ c cs, l = c :: cs ∧ (Text.isAsciiDigit c || c == '-') = true := by
  obtain ⟨ds, hne, hds, rfl | rfl⟩ := h
  · obtain ⟨d, ds, rfl⟩ := List.exists_cons_of_ne_nil hne
    exact ⟨d, ds, rfl, by simp [hds d List.mem_cons_self]⟩
  · exact ⟨'-', ds, rfl, by decide⟩

theorem Token.Lexes.exists_cons (h : k.Lexes l t) (hk : k.isVisible = true) :
    ∃ c cs, l = c :: cs ∧ k.heads c = true := by
  cases k with
  | mark => exact absurd hk (by simp [isVisible])
  | word w => exact h.1 ▸ heads_of_keyword h.2.1
  | punct p => exact ⟨p, [], h.1, by simp [heads]⟩
  | name x => exact exists_cons_of_isDotted h.2.1
  | ident x => exact exists_cons_of_isName h.2.1
  | type ty =>
      obtain ⟨x, n, rfl, _, hx, _⟩ := h
      obtain ⟨c, cs, rfl, hc⟩ := exists_cons_of_isDotted hx
      exact ⟨c, cs ++ dims n, rfl, hc⟩
  | int n => exact exists_cons_of_isInteger h.2.1
  | init x =>
      obtain ⟨rfl, rfl | rfl⟩ := h
      · exact ⟨'<', _, rfl, by decide⟩
      · exact ⟨'<', _, rfl, by decide⟩
  | op o => rw [h.1]; cases o <;> exact ⟨_, _, rfl, by decide⟩
  | cond o => rw [h.1]; cases o <;> exact ⟨_, _, rfl, by decide⟩

theorem spec_of_symbol {o : BinOp} (ho : o ≠ .div) {c : Char} (hc : o.symbol.toList.head? = some c) :
    Text.isWhite c = false ∧ c ≠ '/' := by
  have hall : ∀ o ∈ binOps, o ≠ .div → (o.symbol.toList.head?.all
      fun c => !Text.isWhite c && c != '/') = true := by
    decide +kernel
  have hmem : o ∈ binOps := by cases o <;> decide
  simpa [hc] using hall o hmem ho

/-- **A lexeme does not begin with blank space.** -/
theorem Token.Lexes.settled (h : k.Lexes l t) (hk : k.isVisible = true) : Settled (l ++ t) := by
  obtain ⟨c, cs, rfl, hc⟩ := h.exists_cons hk
  have hname : isNameStart c = true → Settled (c :: cs ++ t) := fun hc =>
    have hspec := isNameStart_spec hc
    settled_cons hspec.2.1 fun hq => absurd hq hspec.2.2.1
  cases k with
  | mark => exact absurd hk (by simp [isVisible])
  | word | name | ident | type => exact hname hc
  | punct p =>
      have hp : c = p := by simpa [heads] using hc
      have hall : (punctuation.all fun p => !Text.isWhite p && p != '/') = true := by decide +kernel
      have hspec : Text.isWhite p = false ∧ p ≠ '/' := by
        simpa using List.all_eq_true.mp hall p h.2
      exact settled_cons (hp ▸ hspec.1) fun hq => absurd (hp.symm.trans hq) hspec.2
  | int n =>
      simp only [heads, Bool.or_eq_true, beq_iff_eq] at hc
      rcases hc with hc | rfl
      · have hspec := isAsciiDigit_spec hc
        exact settled_cons hspec.1 fun hq => absurd hq hspec.2.1
      · exact settled_cons (by decide) fun hq => absurd hq (by decide)
  | init x =>
      have hq : c = '<' := by simpa [heads] using hc
      exact settled_cons (hq ▸ by decide) fun hslash => absurd (hq.symm.trans hslash) (by decide)
  | op o =>
      obtain ⟨hl, ht⟩ := h
      by_cases ho : o = .div
      · -- the slash is followed by nothing that makes it a comment
        subst ho
        obtain ⟨rfl, rfl⟩ : c = '/' ∧ cs = [] := by simpa [BinOp.symbol] using hl
        refine settled_cons (by decide) fun _ => ?_
        cases t with
        | nil => simp
        | cons d t => simpa using (ht d rfl).2 rfl
      · have hspec := spec_of_symbol ho (c := c) (by simpa [heads] using hc)
        exact settled_cons hspec.1 fun hq => absurd hq hspec.2
  | cond o =>
      have ho : o ≠ .div := by
        rintro rfl
        exact absurd h.2.1 (by decide)
      have hspec := spec_of_symbol ho (c := c) (by simpa [heads] using hc)
      exact settled_cons hspec.1 fun hq => absurd hq hspec.2

/-! ## Rows of tokens -/

/-- A token is ahead, and behind it and its blank space there is a second text. With `N` the length of
the whole text, a mark stands at the position that it tells. -/
def Next (N : Option Nat) (k : Token) (s s' : List Char) : Prop :=
  match k with
  | .mark p => s' = s ∧ ∀ n ∈ N, p + s.length = n
  | k => ∃ l g, s = l ++ (g ++ s') ∧ k.Lexes l (g ++ s') ∧ Scanner.blank (g ++ s') = some g.length

theorem next_iff (hk : k.isVisible = true) :
    Next N k s s' ↔ ∃ l g, s = l ++ (g ++ s') ∧ k.Lexes l (g ++ s') ∧
      Scanner.blank (g ++ s') = some g.length := by
  cases k with
  | mark p => exact absurd hk (by simp [Token.isVisible])
  | _ => rfl

/-- A row of tokens is ahead, and behind it there is a second text. -/
def Spells (N : Option Nat) : List Token → List Char → List Char → Prop
  | [], s, t => t = s
  | k :: ts, s, t => ∃ u, Next N k s u ∧ Spells N ts u t

theorem spells_cons : Spells N (k :: ts) s t ↔ ∃ u, Next N k s u ∧ Spells N ts u t :=
  Iff.rfl

theorem spells_singleton : Spells N [k] s t ↔ Next N k s t := by
  constructor
  · rintro ⟨u, h, rfl⟩
    exact h
  · exact fun h => ⟨t, h, rfl⟩

theorem spells_append : Spells N (ts ++ us) s t ↔ ∃ u, Spells N ts s u ∧ Spells N us u t := by
  induction ts generalizing s with
  | nil =>
      constructor
      · exact fun h => ⟨s, rfl, h⟩
      · rintro ⟨u, rfl, h⟩
        exact h
  | cons k ts ih =>
      rw [List.cons_append, spells_cons]
      constructor
      · rintro ⟨v, hk, h⟩
        obtain ⟨u, hts, hus⟩ := ih.mp h
        exact ⟨u, ⟨v, hk, hts⟩, hus⟩
      · rintro ⟨u, ⟨v, hk, hts⟩, hus⟩
        exact ⟨v, hk, ih.mpr ⟨u, hts, hus⟩⟩

/-- Where the marks stand does not matter any more. -/
theorem Next.weaken (h : Next N k s t) : Next none k s t := by
  cases k with
  | mark p => exact ⟨h.1, by simp⟩
  | _ => exact h

theorem Spells.weaken (h : Spells N ts s t) : Spells none ts s t := by
  induction ts generalizing s with
  | nil => exact h
  | cons k ts ih =>
      obtain ⟨u, hk, hts⟩ := h
      exact ⟨u, hk.weaken, ih hts⟩

/-- Behind a token there is no blank space. -/
theorem Next.settled (h : Next N k s t) (hk : k.isVisible = true) : Settled t := by
  obtain ⟨l, g, _, _, hblank⟩ := (next_iff hk).mp h
  exact settled_of_blank hblank

/-- A token takes up some of the text. -/
theorem Next.length_lt (h : Next N k s t) (hk : k.isVisible = true) : t.length < s.length := by
  obtain ⟨l, g, rfl, hlexes, _⟩ := (next_iff hk).mp h
  obtain ⟨c, cs, rfl, _⟩ := hlexes.exists_cons hk
  simp only [List.length_append, List.length_cons]
  omega

theorem Next.exists_append (h : Next N k s t) : ∃ l, s = l ++ t := by
  cases k with
  | mark p => exact ⟨[], h.1.symm⟩
  | _ =>
      obtain ⟨l, g, rfl, _⟩ := h
      exact ⟨l ++ g, by simp⟩

/-- A row of tokens is the front of the text. -/
theorem Spells.exists_append (h : Spells N ts s t) : ∃ l, s = l ++ t := by
  induction ts generalizing s with
  | nil => exact ⟨[], h.symm⟩
  | cons k ts ih =>
      obtain ⟨u, hk, hts⟩ := h
      obtain ⟨l, rfl⟩ := hk.exists_append
      obtain ⟨l', rfl⟩ := ih hts
      exact ⟨l ++ l', by simp⟩

theorem Next.length_le (h : Next N k s t) : t.length ≤ s.length := by
  obtain ⟨l, rfl⟩ := h.exists_append
  simp

theorem Spells.length_le (h : Spells N ts s t) : t.length ≤ s.length := by
  obtain ⟨l, rfl⟩ := h.exists_append
  simp

/-- **What follows a row of tokens may be exchanged for a text that looks the same ahead.** -/
theorem Spells.exchange (h : Spells N ts s t) (hne : t ≠ []) (ha : ahead t = ahead t') (ht' : Settled t') :
    ∃ z, s = z ++ t ∧ Spells none ts (z ++ t') t' ∧ Settled (z ++ t') := by
  induction ts generalizing s with
  | nil =>
      obtain rfl := h
      exact ⟨[], rfl, rfl, ht'⟩
  | cons k ts ih =>
      obtain ⟨u, hk, hrest⟩ := h
      obtain ⟨z, rfl, hz, hsettled⟩ := ih hrest
      by_cases hvisible : k.isVisible = true
      · obtain ⟨l, g, rfl, hlexes, hblank⟩ := (next_iff hvisible).mp hk
        have hahead : ahead (g ++ (z ++ t)) = ahead (g ++ (z ++ t')) :=
          ahead_append (ahead_append ha z) g
        have hlexes' := hlexes.congr hahead
        have hblank' : Scanner.blank (g ++ (z ++ t')) = some g.length :=
          blank_congr hblank (by simp [hne]) hsettled
        refine ⟨l ++ (g ++ z), by simp, ⟨z ++ t', (next_iff hvisible).mpr ?_, hz⟩, ?_⟩
        · exact ⟨l, g, by simp, hlexes', hblank'⟩
        · simpa using hlexes'.settled hvisible
      · cases k with
        | mark p =>
            obtain ⟨rfl, _⟩ := hk
            exact ⟨z, rfl, ⟨z ++ t', ⟨rfl, by simp⟩, hz⟩, hsettled⟩
        | _ => exact absurd rfl hvisible

/-! ## What rules spell -/

/-- A row of tokens stands between two cursors. -/
def Spelled (ts : List Token) (c d : Cursor) : Prop :=
  Spells (some (c.pos + c.rest.length)) ts c.rest d.rest ∧
    d.pos + d.rest.length = c.pos + c.rest.length

theorem Spelled.nil : Spelled [] c c :=
  ⟨rfl, rfl⟩

theorem Spelled.append (h : Spelled ts c d) (h' : Spelled us d e) : Spelled (ts ++ us) c e :=
  ⟨spells_append.mpr ⟨d.rest, h.1, h.2 ▸ h'.1⟩, h'.2.trans h.2⟩

theorem Spelled.cons (h : Spelled [k] c d) (h' : Spelled ts d e) : Spelled (k :: ts) c e :=
  h.append h'

theorem spelled_mark : Spelled [.mark c.pos] c c :=
  ⟨⟨c.rest, ⟨rfl, by simp⟩, rfl⟩, rfl⟩

/-- A token stands between two cursors if its lexeme and its blank space do. -/
theorem spelled_of_lexes (hk : k.isVisible = true) (hs : c.rest = l ++ (g ++ d.rest))
    (hlexes : k.Lexes l (g ++ d.rest)) (hblank : Scanner.blank (g ++ d.rest) = some g.length)
    (hpos : d.pos = c.pos + l.length + g.length) : Spelled [k] c d := by
  refine ⟨spells_singleton.mpr ((next_iff hk).mpr ⟨l, g, hs, hlexes, hblank⟩), ?_⟩
  rw [hs, hpos]
  simp only [List.length_append]
  omega

/-- Every run of a rule that spells its values spells the row of them. -/
theorem spelled_of_runs {α : Type} {r : Rule α} {tokens : α → List Token} {as : List α}
    (hr : ∀ c a d, Reads r c a d → Spelled (tokens a) c d) (h : Runs r c as d) :
    Spelled (as.flatMap tokens) c d := by
  induction h with
  | nil c => exact .nil
  | cons ha _ ih => exact (hr _ _ _ ha).append ih

end TacFlow.Grammar
