import TacFlow.Proofs.Grammar.Spelling

/-!
# Terminals

The rules for tokens read exactly what the tokens spell, and refuse a text that begins with a token of
another kind. For this the first character of the token is enough, except among names and keywords,
which are told apart by the word that they are.
-/

namespace TacFlow.Grammar

open Source Rule Scanner

variable {k : Token} {N : Option Nat} {l g s s' t : List Char} {c c' d : Cursor} {u : Unit}

/-! ## Lexemes between cursors -/

/-- The characters between two cursors. -/
def Spans (l : List Char) (c d : Cursor) : Prop :=
  c.rest = l ++ d.rest ∧ d.pos = c.pos + l.length

theorem spans_advance (h : c.rest = l ++ t) : Spans l c (c.advance l.length) := by
  simp [Spans, Cursor.advance, h]

theorem Spans.eq_advance (h : Spans l c d) : d = c.advance l.length := by
  obtain ⟨hrest, hpos⟩ := h
  cases d
  simp_all [Cursor.advance]

/-- A rule that reads a lexeme parses it. -/
theorem parses_of_spans {α : Type} {r : Rule α} {a : α}
    (h : ∀ {c d}, Spans l c d → d.rest = t → Reads r c a d) : Parses r a (l ++ t) t := by
  intro c hc
  have hspans := spans_advance hc
  have hrest : (c.advance l.length).rest = t := by simp [Cursor.advance, hc]
  refine ⟨a, _, h hspans hrest, rfl, hrest, ?_⟩
  rw [hspans.2, List.length_append, Nat.add_assoc]

/-- A scanner that is known by its lexemes reads these. -/
theorem reads_scan {scan : List Char → Option Nat} {Q : List Char → List Char → Prop}
    (hscan : ∀ {s n}, scan s = some n ↔ ∃ l t, s = l ++ t ∧ l.length = n ∧ Q l t) :
    Reads (lexeme scan) c l d ↔ Spans l c d ∧ Q l d.rest := by
  rw [reads_lexeme]
  constructor
  · rintro ⟨n, hn, rfl, rfl⟩
    obtain ⟨l, t, hs, rfl, hQ⟩ := hscan.mp hn
    have hspans := spans_advance hs
    rw [hs, List.take_left]
    have hrest : (c.advance l.length).rest = t := by simp [Cursor.advance, hs]
    exact ⟨hspans, hrest ▸ hQ⟩
  · rintro ⟨hspans, hQ⟩
    refine ⟨l.length, hscan.mpr ⟨l, d.rest, hspans.1, rfl, hQ⟩, ?_, hspans.eq_advance⟩
    rw [hspans.1, List.take_left]

theorem reads_blank :
    Reads blank c u d ↔ ∃ g, Spans g c d ∧ Scanner.blank (g ++ d.rest) = some g.length := by
  have hscan : ∀ {s n}, Scanner.blank s = some n ↔
      ∃ g t, s = g ++ t ∧ g.length = n ∧ Scanner.blank (g ++ t) = some g.length := by
    intro s n
    constructor
    · intro h
      obtain ⟨g, t, rfl, rfl, _⟩ := blank_eq_some h
      exact ⟨g, t, rfl, rfl, h⟩
    · rintro ⟨g, t, rfl, rfl, h⟩
      exact h
  unfold blank
  simp only [reads_bind, reads_scan hscan, reads_pure]
  constructor
  · rintro ⟨g, d, h, -, rfl⟩
    exact ⟨g, h⟩
  · rintro ⟨g, h⟩
    exact ⟨g, d, h, trivial, rfl⟩

theorem reads_literal {w : String} : Reads (literal w) c u d ↔ Spans w.toList c d := by
  unfold literal
  rw [reads_oneOf]
  constructor
  · rintro ⟨word, hfind, rfl⟩
    have hmem := List.mem_of_find?_eq_some hfind
    obtain rfl : word = w.toList := by simpa using hmem
    have hprefix : w.toList <+: c.rest := by simpa using List.find?_some hfind
    obtain ⟨t, ht⟩ := hprefix
    exact spans_advance ht.symm
  · intro h
    refine ⟨w.toList, ?_, h.eq_advance⟩
    rw [List.find?_cons_of_pos]
    simp [h.1]

/-! ## Rules for tokens -/

/-- A token is a lexeme with blank space behind it. -/
theorem spelled_iff (hk : k.isVisible = true) : Spelled [k] c d ↔
    ∃ l c', Spans l c c' ∧ k.Lexes l c'.rest ∧ Reads blank c' u d := by
  constructor
  · rintro ⟨hspells, hpos⟩
    obtain ⟨l, g, hs, hlexes, hblank⟩ := (next_iff hk).mp (spells_singleton.mp hspells)
    have hrest : (c.advance l.length).rest = g ++ d.rest := by simp [Cursor.advance, hs]
    refine ⟨l, c.advance l.length, spans_advance hs, hrest ▸ hlexes,
      reads_blank.mpr ⟨g, ⟨hrest, ?_⟩, hblank⟩⟩
    rw [hs] at hpos
    simp only [List.length_append] at hpos
    simp only [Cursor.advance]
    omega
  · rintro ⟨l, c', hl, hlexes, hblank⟩
    obtain ⟨g, hg, hblank⟩ := reads_blank.mp hblank
    rw [hg.1] at hlexes
    exact spelled_of_lexes hk (by rw [hl.1, hg.1]) hlexes hblank (by rw [hg.2, hl.2])

theorem failsAt_keyword : FailsAt keyword c ↔ Unreserved c.rest := by
  unfold keyword
  rw [failsAt_named, failsAt_bind, failsAt_lexeme, keyword_eq_none]
  refine or_iff_left ?_
  rintro ⟨a, c', _, h⟩
  exact absurd h (by simp [FailsAt, pure, success])

/-- Keywords are ahead of a lexeme with what follows it, or of the lexeme alone. -/
theorem unreserved_append (ht : ∀ c ∈ t.head?, Text.isWord c = false) :
    Unreserved (l ++ t) ↔ Unreserved l := by
  unfold Unreserved
  rw [run_append ht]

theorem isWord_of_endsName (ht : EndsName t) : ∀ c ∈ t.head?, Text.isWord c = false := by
  intro c hc
  cases t with
  | nil => exact absurd hc (by simp)
  | cons d t =>
      cases hc
      by_cases hdot : c = '.'
      · exact hdot ▸ by decide
      · exact isWord_of_isNameChar ((endsName_cons hdot).mp ht)

theorem reads_word {w : String} (hw : w ∈ keywords) :
    Reads (word w) c u d ↔ Spelled [.word w] c d := by
  have hscan : ∀ {s n}, Scanner.word w s = some n ↔ ∃ l t, s = l ++ t ∧ l.length = n ∧
      (Token.word w).Lexes l t := by
    intro s n
    rw [word_eq_some]
    constructor
    · rintro ⟨rfl, t, rfl, ht⟩
      exact ⟨_, t, rfl, String.length_toList, rfl, hw, ht⟩
    · rintro ⟨l, t, rfl, rfl, rfl, _, ht⟩
      exact ⟨String.length_toList, t, rfl, ht⟩
  rw [spelled_iff (u := u) rfl]
  unfold word
  simp only [reads_named, reads_bind, reads_scan hscan, and_assoc]

theorem reads_punct {p : Char} {w : String} (hw : w.toList = [p]) (hp : p ∈ punctuation) :
    Reads (punct w) c u d ↔ Spelled [.punct p] c d := by
  rw [spelled_iff (u := u) rfl]
  unfold punct
  simp only [reads_named, reads_bind, reads_literal, hw]
  constructor
  · rintro ⟨_, c', hl, hblank⟩
    exact ⟨[p], c', hl, ⟨rfl, hp⟩, hblank⟩
  · rintro ⟨_, c', hl, ⟨rfl, _⟩, hblank⟩
    exact ⟨(), c', hl, hblank⟩

theorem reads_ident {x : String} : Reads ident c x d ↔ Spelled [.ident x] c d := by
  rw [spelled_iff (u := ()) rfl]
  unfold ident
  simp only [reads_named, reads_bind, reads_notAhead, failsAt_keyword, reads_scan name_eq_some, reads_pure]
  constructor
  · rintro ⟨_, _, ⟨hun, rfl⟩, l, c', ⟨hl, hname, hends⟩, _, _, hblank, rfl, rfl⟩
    rw [hl.1, unreserved_append fun c hc => isWord_of_isNameChar (hends c hc)] at hun
    exact ⟨l, c', hl, ⟨by simp, hname, hun, hends⟩, hblank⟩
  · rintro ⟨l, c', hl, ⟨rfl, hname, hun, hends⟩, hblank⟩
    refine ⟨(), c, ⟨?_, rfl⟩, _, c', ⟨hl, hname, hends⟩, (), d, hblank, by simp, rfl⟩
    rw [hl.1, unreserved_append fun c hc => isWord_of_isNameChar (hends c hc)]
    exact hun

theorem reads_className {x : String} : Reads className c x d ↔
    ∃ l, Spans l c d ∧ l = x.toList ∧ IsDotted l ∧ Unreserved l ∧ EndsName d.rest := by
  unfold className
  simp only [reads_named, reads_bind, reads_notAhead, failsAt_keyword, reads_scan dottedName_eq_some,
    reads_pure]
  constructor
  · rintro ⟨_, _, ⟨hun, rfl⟩, l, d, ⟨hl, hname, hends⟩, rfl, rfl⟩
    rw [hl.1, unreserved_append (isWord_of_endsName hends)] at hun
    exact ⟨l, hl, by simp, hname, hun, hends⟩
  · rintro ⟨l, hl, rfl, hname, hun, hends⟩
    refine ⟨(), c, ⟨?_, rfl⟩, _, d, ⟨hl, hname, hends⟩, by simp, rfl⟩
    rw [hl.1, unreserved_append (isWord_of_endsName hends)]
    exact hun

/-- A class name with the blank space behind it. -/
theorem spelled_name {x : String} : Spelled [.name x] c d ↔
    ∃ c', Reads className c x c' ∧ Reads blank c' u d := by
  rw [spelled_iff (u := u) rfl]
  simp only [reads_className]
  constructor
  · rintro ⟨l, c', hl, hlexes, hblank⟩
    exact ⟨c', ⟨l, hl, hlexes⟩, hblank⟩
  · rintro ⟨c', ⟨l, hl, hlexes⟩, hblank⟩
    exact ⟨l, c', hl, hlexes, hblank⟩

/-- Every text is split into array dimensions and a rest without any. -/
theorem exists_dims (s : List Char) : ∃ n t, s = dims n ++ t ∧ ¬ ['[', ']'] <+: t := by
  induction hlength : s.length using Nat.strong_induction_on generalizing s with
  | _ m ih =>
      by_cases hs : ['[', ']'] <+: s
      · obtain ⟨u, rfl⟩ := hs
        have hlt : u.length < m := by
          rw [← hlength, List.length_append]
          exact Nat.lt_add_of_pos_left (by decide)
        obtain ⟨n, t, rfl, ht⟩ := ih u.length hlt u rfl
        exact ⟨n + 1, t, rfl, ht⟩
      · exact ⟨0, s, rfl, hs⟩

theorem parses_arrayDims {n : Nat} (ht : ¬ ['[', ']'] <+: t) :
    Parses arrayDims n (dims n ++ t) t := by
  have hone : ∀ t, Parses (literal "[]") () (['[', ']'] ++ t) t := fun _ =>
    parses_of_spans fun hspans _ => reads_literal.mpr hspans
  have hrow : Row (fun a t t' => Parses (literal "[]") a t t' ∧ t'.length < t.length)
      (List.replicate n ()) (dims n ++ t) t := by
    induction n with
    | zero => exact .nil t
    | succ n ih =>
        have hlt : (dims n ++ t).length < ('[' :: ']' :: (dims n ++ t)).length := by
          rw [List.length_cons, List.length_cons]
          omega
        exact .cons ⟨hone (dims n ++ t), hlt⟩ ih
  have hstop : Refuses (literal "[]") t := by
    intro c hc
    refine failsAt_oneOf.mpr ?_
    simpa [hc] using ht
  refine ((parses_many hrow (Or.inr hstop)).bind ?_).named
  rw [List.length_replicate]
  exact parses_pure

theorem reads_arrayDims {n : Nat} :
    Reads arrayDims c n d ↔ Spans (dims n) c d ∧ ¬ ['[', ']'] <+: d.rest := by
  have hreads : ∀ {n d}, Spans (dims n) c d → ¬ ['[', ']'] <+: d.rest → Reads arrayDims c n d := by
    intro n d hspans hstop
    refine Parses.reads (hspans.1 ▸ parses_arrayDims hstop) ?_
    rw [hspans.1, hspans.2, List.length_append, Nat.add_assoc]
  constructor
  · intro h
    obtain ⟨m, t, hs, ht⟩ := exists_dims c.rest
    have hspans := spans_advance hs
    have hrest : (c.advance (dims m).length).rest = t := by simp [Cursor.advance, hs]
    obtain ⟨rfl, rfl⟩ := h.unique (hreads hspans (hrest ▸ ht))
    exact ⟨hspans, hrest ▸ ht⟩
  · rintro ⟨hspans, hstop⟩
    exact hreads hspans hstop

theorem endsName_dims {n : Nat} (ht : n = 0 → EndsName t) : EndsName (dims n ++ t) := by
  cases n with
  | zero => exact ht rfl
  | succ n => exact (endsName_cons (by decide)).mpr (by decide)

theorem reads_type {ty : Ty} : Reads type c ty d ↔ Spelled [.type ty] c d := by
  rw [spelled_iff (u := ()) rfl]
  unfold type
  simp only [reads_named, reads_bind, reads_className, reads_arrayDims, reads_pure]
  constructor
  · rintro ⟨x, c₁, ⟨l, hl, rfl, hname, hun, hends⟩, n, c₂, ⟨hn, hstop⟩, _, _, hblank, rfl, rfl⟩
    refine ⟨x.toList ++ dims n, c₂, ⟨by rw [hl.1, hn.1, List.append_assoc], ?_⟩, ?_, hblank⟩
    · rw [hn.2, hl.2, List.length_append, Nat.add_assoc]
    · refine ⟨x.toList, n, rfl, by rw [String.ofList_toList], hname, hun, ?_, hstop⟩
      rintro rfl
      rw [hn.1] at hends
      exact hends
  · rintro ⟨_, c₂, hl, ⟨x, n, rfl, rfl, hname, hun, hends, hstop⟩, hblank⟩
    rw [Spans, List.append_assoc] at hl
    have hx := spans_advance hl.1
    have hrest : (c.advance x.length).rest = dims n ++ c₂.rest := by simp [Cursor.advance, hl.1]
    refine ⟨String.ofList x, _, ⟨x, hx, by simp, hname, hun, hrest ▸ endsName_dims hends⟩, n, c₂,
      ⟨⟨hrest, ?_⟩, hstop⟩, (), d, hblank, rfl, rfl⟩
    rw [hl.2, hx.2, List.length_append, Nat.add_assoc]

theorem reads_intLit {n : Literal} : Reads intLit c n d ↔ Spelled [.int n] c d := by
  rw [spelled_iff (u := ()) rfl]
  unfold intLit
  simp only [reads_named, reads_bind, reads_scan integer_eq_some, reads_pure]
  constructor
  · rintro ⟨l, c', ⟨hl, hint, hends⟩, _, _, hblank, rfl, rfl⟩
    exact ⟨l, c', hl, ⟨rfl, hint, hends⟩, hblank⟩
  · rintro ⟨l, c', hl, ⟨rfl, hint, hends⟩, hblank⟩
    exact ⟨l, c', ⟨hl, hint, hends⟩, (), d, hblank, rfl, rfl⟩

theorem reads_initName {x : String} : Reads initName c x d ↔ Spelled [.init x] c d := by
  have hscan : ∀ {s n}, Scanner.initializer s = some n ↔ ∃ l t, s = l ++ t ∧ l.length = n ∧
      (Token.init (String.ofList l)).Lexes l t := by
    intro s n
    rw [initializer_eq_some]
    constructor
    · rintro ⟨l, t, rfl, rfl, rfl | rfl⟩
      · exact ⟨_, t, rfl, rfl, by simp [Token.Lexes]⟩
      · exact ⟨_, t, rfl, rfl, by simp [Token.Lexes]⟩
    · rintro ⟨l, t, rfl, rfl, hl, h | h⟩
      · exact ⟨l, t, rfl, rfl, Or.inl (by rw [hl, h])⟩
      · exact ⟨l, t, rfl, rfl, Or.inr (by rw [hl, h])⟩
  rw [spelled_iff (u := ()) rfl]
  unfold initName
  simp only [reads_named, reads_bind, reads_scan hscan, reads_pure]
  constructor
  · rintro ⟨l, c', ⟨hl, hlexes⟩, _, _, hblank, rfl, rfl⟩
    exact ⟨l, c', hl, hlexes, hblank⟩
  · rintro ⟨l, c', hl, hlexes, hblank⟩
    obtain rfl : x = String.ofList l := by rw [hlexes.1, String.ofList_toList]
    exact ⟨l, c', ⟨hl, hlexes⟩, (), d, hblank, rfl, rfl⟩

theorem reads_symbols {ops : List BinOp} (hops : ops = binOps ∨ ops = condOps) {o : BinOp} :
    Reads (oneOf (symbols ops)) c o d ↔
      o ∈ ops ∧ Spans o.symbol.toList c d ∧ ∀ e ∈ d.rest.head?, Extends ops o e = false := by
  rw [reads_oneOf]
  constructor
  · rintro ⟨w, hfirst, rfl⟩
    obtain ⟨rfl, ho, t, ht⟩ := mem_of_firstOf hfirst
    have hrest : (c.advance o.symbol.toList.length).rest = t := by simp [Cursor.advance, ht]
    change firstOf ops c.rest = _ at hfirst
    rw [ht] at hfirst
    exact ⟨ho, spans_advance ht, hrest ▸ (firstOf_symbol hops ho).mp hfirst⟩
  · rintro ⟨ho, hspans, hext⟩
    refine ⟨_, ?_, hspans.eq_advance⟩
    rw [hspans.1]
    exact (firstOf_symbol hops ho).mpr hext

theorem reads_condOp {o : BinOp} : Reads condOp c o d ↔ Spelled [.cond o] c d := by
  rw [spelled_iff (u := ()) rfl]
  unfold condOp
  rw [show symbols [.eq, .ne, .le, .ge, .lt, .gt] = symbols condOps from rfl]
  simp only [reads_named, reads_bind, reads_symbols (Or.inr rfl), reads_pure]
  constructor
  · rintro ⟨_, c', ⟨ho, hl, hext⟩, _, _, hblank, rfl, rfl⟩
    exact ⟨_, c', hl, ⟨rfl, ho, hext⟩, hblank⟩
  · rintro ⟨_, c', hl, ⟨rfl, ho, hext⟩, hblank⟩
    exact ⟨o, c', ⟨ho, hl, hext⟩, (), d, hblank, rfl, rfl⟩

/-- An operator is read as a slash only if it does not begin a comment. -/
theorem reads_binOp {o : BinOp} : Reads binOp c o d ↔ ∃ c', (Spans o.symbol.toList c c' ∧
    ∀ e ∈ c'.rest.head?, Extends binOps o e = false) ∧ Reads blank c' () d := by
  unfold binOp
  rw [show symbols [.ushr, .shl, .shr, .le, .ge, .eq, .ne, .lt, .gt, .add, .sub, .mul, .div, .rem,
    .or, .and, .xor] = symbols binOps from rfl]
  simp only [reads_named, reads_bind, reads_symbols (Or.inl rfl), reads_pure]
  constructor
  · rintro ⟨_, c', ⟨_, hl⟩, _, _, hblank, rfl, rfl⟩
    exact ⟨c', hl, hblank⟩
  · rintro ⟨c', hl, hblank⟩
    exact ⟨o, c', ⟨by cases o <;> decide, hl⟩, (), d, hblank, rfl, rfl⟩

theorem reads_binOp_of_spelled {o : BinOp} (h : Spelled [.op o] c d) : Reads binOp c o d := by
  obtain ⟨l, c', hl, ⟨rfl, hext⟩, hblank⟩ := (spelled_iff (u := ()) rfl).mp h
  exact reads_binOp.mpr ⟨c', ⟨hl, fun e he => (hext e he).1⟩, hblank⟩

/-- Where no blank space is ahead, an operator with an operand behind it is a token. -/
theorem spelled_of_reads_binOp {o : BinOp} (h : Reads binOp c o d) (hc : Settled c.rest)
    (hd : d.rest.head? ≠ some '*') : Spelled [.op o] c d := by
  obtain ⟨c', ⟨hl, hext⟩, hblank⟩ := reads_binOp.mp h
  refine (spelled_iff (u := ()) rfl).mpr ⟨_, c', hl, ⟨rfl, fun e he => ⟨hext e he, ?_⟩⟩, hblank⟩
  rintro rfl
  have hrest : c.rest = '/' :: c'.rest := hl.1
  obtain ⟨rest, hc'⟩ := List.head?_eq_some_iff.mp he
  rw [hrest, hc'] at hc
  refine ⟨?_, ?_⟩
  · rintro rfl
    have hline : (blankFrom .lineComment rest).map (· + 2) = some 0 := hc
    obtain ⟨n, hn, hn'⟩ := Option.map_eq_some_iff.mp hline
    omega
  · rintro rfl
    obtain ⟨g, hg, hg'⟩ := reads_blank.mp hblank
    cases g with
    | nil => exact hd (by rw [← List.nil_append d.rest, ← hg.1, hc']; rfl)
    | cons x g =>
        obtain rfl : x = '*' := by
          have heq := hg.1
          rw [hc'] at heq
          exact (List.cons.inj heq).1.symm
        exact absurd (head_of_blank hg') (by decide)

/-! ## Parsing tokens -/

/-- A rule that reads a token parses it. -/
theorem Next.parses {α : Type} {r : Rule α} {a : α} (h : Next N k s s') (hk : k.isVisible = true)
    (hr : ∀ {c d}, Spelled [k] c d → Reads r c a d) : Parses r a s s' := by
  intro c hc
  have hle : s'.length ≤ s.length := h.length_le
  have hpos : c.pos + (s.length - s'.length) + s'.length = c.pos + s.length := by omega
  refine ⟨a, ⟨c.pos + (s.length - s'.length), s'⟩, hr ⟨?_, hc ▸ hpos⟩, rfl, rfl, hpos⟩
  rw [hc]
  exact spells_singleton.mpr ((next_iff hk).mpr ((next_iff hk).mp h))

theorem Next.parses_word {w : String} (h : Next N (.word w) s s') : Parses (word w) () s s' := by
  obtain ⟨_, _, _, ⟨_, hw, _⟩, _⟩ := id h
  exact h.parses rfl (reads_word hw).mpr

theorem Next.parses_punct {p : Char} {w : String} (h : Next N (.punct p) s s') (hw : w.toList = [p]) :
    Parses (punct w) () s s' := by
  obtain ⟨_, _, _, ⟨_, hp⟩, _⟩ := id h
  exact h.parses rfl (reads_punct hw hp).mpr

theorem Next.parses_ident {x : String} (h : Next N (.ident x) s s') : Parses ident x s s' :=
  h.parses rfl reads_ident.mpr

theorem Next.parses_type {ty : Ty} (h : Next N (.type ty) s s') : Parses type ty s s' :=
  h.parses rfl reads_type.mpr

theorem Next.parses_intLit {n : Literal} (h : Next N (.int n) s s') : Parses intLit n s s' :=
  h.parses rfl reads_intLit.mpr

theorem Next.parses_initName {x : String} (h : Next N (.init x) s s') : Parses initName x s s' :=
  h.parses rfl reads_initName.mpr

theorem Next.parses_binOp {o : BinOp} (h : Next N (.op o) s s') : Parses binOp o s s' :=
  h.parses rfl reads_binOp_of_spelled

theorem Next.parses_condOp {o : BinOp} (h : Next N (.cond o) s s') : Parses condOp o s s' :=
  h.parses rfl reads_condOp.mpr

/-- A class name and the blank space behind it are read one after the other. -/
theorem Next.parses_name {α : Type} {P : α → Prop} {f : String → Rule α} {x : String}
    (h : Next N (.name x) s s') (hf : ParsesTo (f x) P s' t) :
    ParsesTo (className >>= fun x => blank >>= fun _ => f x) P s t := by
  have hparses : Parses (className >>= fun x => blank >>= fun _ => pure x) x s s' := by
    refine h.parses rfl fun hspelled => ?_
    obtain ⟨c', hname, hblank⟩ := (spelled_name (u := ())).mp hspelled
    exact reads_bind.mpr ⟨_, _, hname, reads_bind.mpr ⟨_, _, hblank, reads_pure.mpr ⟨rfl, rfl⟩⟩⟩
  intro c hc
  obtain ⟨_, c₂, hr, rfl, hrest, hpos⟩ := hparses c hc
  obtain ⟨_, c₁, hname, hr⟩ := reads_bind.mp hr
  obtain ⟨_, _, hblank, hr⟩ := reads_bind.mp hr
  obtain ⟨rfl, rfl⟩ := reads_pure.mp hr
  obtain ⟨a, d, ha, hP, hd, hpos'⟩ := hf _ hrest
  exact ⟨a, d, reads_bind.mpr ⟨_, _, hname, reads_bind.mpr ⟨_, _, hblank, ha⟩⟩, hP, hd, hpos'.trans hpos⟩

/-! ## What is ahead of a rule -/

/-- What a text begins with: a keyword, another name, a digit or another character. -/
inductive Lead where
  | nothing
  | keyword (w : String)
  | name
  | digit
  | sign (c : Char)
  deriving DecidableEq

/-- What a text begins with. -/
def lead : List Char → Lead
  | [] => .nothing
  | c :: cs =>
    if isNameStart c then
      match keywords.find? fun w => w.toList == run (c :: cs) with
      | some w => .keyword w
      | none => .name
    else if Text.isAsciiDigit c then .digit
    else .sign c

theorem lead_of_run {w : String} (hw : w ∈ keywords) (hs : run s = w.toList) :
    lead s = .keyword w := by
  obtain ⟨c, cs, hcons, hstart⟩ := heads_of_keyword hw
  obtain ⟨t, ht⟩ : ∃ t, s = c :: t := by
    cases s with
    | nil => rw [hcons] at hs; exact absurd hs (by simp [run])
    | cons d t =>
        have hd : (run (d :: t)).head? = some c := by rw [hs, hcons]; rfl
        unfold run at hd
        rw [List.takeWhile_cons] at hd
        split at hd
        · exact ⟨t, by rw [Option.some.inj hd]⟩
        · exact absurd hd (by simp)
  have hfind : keywords.find? (fun v => v.toList == run s) = some w := by
    have hall : ∀ w ∈ keywords, keywords.find? (fun v => v.toList == w.toList) = some w := by
      decide +kernel
    rw [hs]
    exact hall w hw
  subst ht
  rw [lead, if_pos hstart, hfind]

theorem lead_of_unreserved {c : Char} (hc : isNameStart c = true) (hun : Unreserved (c :: t)) :
    lead (c :: t) = .name := by
  have hfind : keywords.find? (fun v => v.toList == run (c :: t)) = none := by
    rw [List.find?_eq_none]
    intro w hw heq
    exact hun w hw (eq_of_beq heq).symm
  rw [lead, if_pos hc, hfind]

theorem lead_of_sign {c : Char} (hc : isNameStart c = false ∧ Text.isAsciiDigit c = false) :
    lead (c :: t) = .sign c := by
  rw [lead, if_neg (by simp [hc.1]), if_neg (by simp [hc.2])]

theorem spec_of_symbol_head {o : BinOp} {c : Char} (hc : o.symbol.toList.head? = some c) :
    isNameStart c = false ∧ Text.isAsciiDigit c = false := by
  have hall : ∀ o ∈ binOps, (o.symbol.toList.head?.all
      fun c => !isNameStart c && !Text.isAsciiDigit c) = true := by
    decide +kernel
  have hmem : o ∈ binOps := by cases o <;> decide
  simpa [hc] using hall o hmem

/-- What a token begins with. -/
def Token.Leads : Token → Lead → Prop
  | mark _, _ => True
  | word w, a => a = .keyword w
  | name _, a | ident _, a | type _, a => a = .name
  | punct p, a => a = .sign p
  | int _, a => a = .digit ∨ a = .sign '-'
  | init _, a => a = .sign '<'
  | op o, a | cond o, a => ∃ c ∈ o.symbol.toList.head?, a = .sign c

/-- **A token is told by what is ahead.** -/
theorem Next.leads (h : Next N k s s') (hk : k.isVisible = true) : k.Leads (lead s) := by
  obtain ⟨l, g, rfl, hlexes, _⟩ := (next_iff hk).mp h
  obtain ⟨c, cs, rfl, hc⟩ := hlexes.exists_cons hk
  cases k with
  | mark => trivial
  | word w =>
      obtain ⟨hl, hw, hends⟩ := hlexes
      refine lead_of_run hw ?_
      rw [run_append hends, hl]
      exact List.takeWhile_eq_self_iff.mpr (isWord_of_mem_keywords hw)
  | name x =>
      obtain ⟨_, _, hun, hends⟩ := hlexes
      exact lead_of_unreserved hc ((unreserved_append (isWord_of_endsName hends)).mpr hun)
  | ident x =>
      obtain ⟨_, _, hun, hends⟩ := hlexes
      exact lead_of_unreserved hc
        ((unreserved_append fun d hd => isWord_of_isNameChar (hends d hd)).mpr hun)
  | type ty =>
      obtain ⟨x, n, hl, _, _, hun, hends, _⟩ := hlexes
      refine lead_of_unreserved hc ?_
      change Unreserved (c :: cs ++ (g ++ s'))
      rw [hl, List.append_assoc]
      exact (unreserved_append (isWord_of_endsName (endsName_dims hends))).mpr hun
  | punct p =>
      obtain rfl : c = p := by simpa [Token.heads] using hc
      have hall : (punctuation.all fun p => !isNameStart p && !Text.isAsciiDigit p) = true := by
        decide +kernel
      exact lead_of_sign (by simpa using List.all_eq_true.mp hall c hlexes.2)
  | int n =>
      simp only [Token.heads, Bool.or_eq_true, beq_iff_eq] at hc
      rcases hc with hc | rfl
      · refine Or.inl ?_
        rw [List.cons_append, lead, if_neg (by simp [(isAsciiDigit_spec hc).2.2.2]), if_pos hc]
      · exact Or.inr (lead_of_sign (by decide))
  | init x =>
      obtain rfl : c = '<' := by simpa [Token.heads] using hc
      exact lead_of_sign (by decide)
  | op o | cond o =>
      have hhead : o.symbol.toList.head? = some c := by simpa [Token.heads] using hc
      exact ⟨c, hhead, lead_of_sign (spec_of_symbol_head hhead)⟩

/-! ## Refusal -/

/-- A rule for tokens refuses a text in which none of them is ahead. -/
theorem refuses_of_leads {α : Type} {r : Rule α} {f : α → Token}
    (hr : ∀ {c a d}, Reads r c a d → Spelled [f a] c d) (hf : ∀ a, (f a).isVisible = true)
    (hs : ∀ a, ¬ (f a).Leads (lead s)) : Refuses r s := by
  rintro c rfl
  refine failsAt_iff.mpr fun a d h => hs a ?_
  exact (spells_singleton.mp (hr h).1).leads (hf a)

theorem refuses_word {w : String} (hw : w ∈ keywords) (h : lead s ≠ .keyword w) :
    Refuses (word w) s :=
  refuses_of_leads (f := fun _ => .word w) (reads_word hw).mp (fun _ => rfl) fun _ => h

theorem refuses_punct {p : Char} {w : String} (hw : w.toList = [p]) (hp : p ∈ punctuation)
    (h : lead s ≠ .sign p) : Refuses (punct w) s :=
  refuses_of_leads (f := fun _ => .punct p) (reads_punct hw hp).mp (fun _ => rfl) fun _ => h

theorem refuses_ident (h : lead s ≠ .name) : Refuses ident s :=
  refuses_of_leads reads_ident.mp (fun _ => rfl) fun _ => h

theorem refuses_type (h : lead s ≠ .name) : Refuses type s :=
  refuses_of_leads reads_type.mp (fun _ => rfl) fun _ => h

theorem refuses_intLit (h : lead s ≠ .digit) (h' : lead s ≠ .sign '-') : Refuses intLit s :=
  refuses_of_leads reads_intLit.mp (fun _ => rfl) fun _ => not_or.mpr ⟨h, h'⟩

theorem refuses_initName (h : lead s ≠ .sign '<') : Refuses initName s :=
  refuses_of_leads reads_initName.mp (fun _ => rfl) fun _ => h

theorem refuses_binOp {p : Char} (h : lead s = .sign p) (hp : p ∈ [';', '[', '.']) :
    Refuses binOp s := by
  rintro c rfl
  refine failsAt_iff.mpr fun o d hread => ?_
  obtain ⟨c', ⟨hl, _⟩, _⟩ := reads_binOp.mp hread
  have hall : ∀ o ∈ binOps, (o.symbol.toList.head?.any
      fun c => c ∉ [';', '[', '.']) = true := by
    decide +kernel
  obtain ⟨e, he, hne⟩ := (Option.any_eq_true _ _).mp (hall o (by cases o <;> decide))
  obtain ⟨cs, hcs⟩ := List.head?_eq_some_iff.mp he
  rw [hl.1, hcs, List.cons_append, lead_of_sign (spec_of_symbol_head he)] at h
  obtain rfl := Lead.sign.inj h
  exact absurd hp (by simpa using hne)

end TacFlow.Grammar
