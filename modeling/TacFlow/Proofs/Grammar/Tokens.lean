import Mathlib.Tactic.FinCases
import TacFlow.Proofs.Grammar.Lexemes
import TacFlow.Proofs.Grammar.Reading

/-!
# Tokens

A text is a row of tokens, each of which is a lexeme with the blank space behind it. `Token.Lexes` tells
which lexemes a token has and in front of which texts they are taken whole; `Spells` puts tokens
next to each other. The productions for tokens read exactly such stretches.

What follows a token may be exchanged for another text that looks the same `ahead`, and for any text
that begins with a delimiter.
-/

namespace TacFlow.Grammar

open Source Rule

/-! ## Operators -/

/-- The operators in the order in which their symbols are tried. -/
def binOps : List BinOp :=
  [.ushr, .shl, .shr, .le, .ge, .eq, .ne, .lt, .gt, .add, .sub, .mul, .div, .rem, .or, .and, .xor]

/-- The comparisons in the order in which their symbols are tried. -/
def condOps : List BinOp :=
  [.eq, .ne, .le, .ge, .lt, .gt]

/-- A character behind the symbol of an operator makes a longer symbol of it. -/
def Extends (ops : List BinOp) (o : BinOp) (c : Char) : Bool :=
  ops.any fun o' => (o.symbol.toList ++ [c]) == o'.symbol.toList

/-- The first of some operators whose symbol is ahead. -/
def firstOf (ops : List BinOp) (s : List Char) : Option (List Char × BinOp) :=
  (symbols ops).find? fun choice => choice.1.isPrefixOf s

theorem mem_of_firstOf {ops : List BinOp} {s w : List Char} {o : BinOp}
    (h : firstOf ops s = some (w, o)) : w = o.symbol.toList ∧ o ∈ ops ∧ ∃ t, s = w ++ t := by
  obtain ⟨o', ho', heq⟩ := List.mem_map.mp (List.mem_of_find?_eq_some h)
  obtain ⟨rfl, rfl⟩ := Prod.mk.inj heq
  have hprefix : o'.symbol.toList.isPrefixOf s = true := by simpa using List.find?_some h
  obtain ⟨t, ht⟩ := List.isPrefixOf_iff_prefix.mp hprefix
  exact ⟨rfl, ho', t, ht.symm⟩

/-- A symbol is taken unless it can be extended. -/
theorem firstOf_symbol {ops : List BinOp} (hops : ops = binOps ∨ ops = condOps) {o : BinOp}
    {t : List Char} (ho : o ∈ ops) :
    firstOf ops (o.symbol.toList ++ t) = some (o.symbol.toList, o) ↔
      ∀ c ∈ t.head?, Extends ops o c = false := by
  rcases hops with rfl | rfl
  all_goals
    cases t with
    | nil => fin_cases ho <;> simp [firstOf, symbols, binOps, condOps, BinOp.symbol]
    | cons c t =>
        have heq : ∀ d : Char, (d == c) = decide (c = d) := fun d => decide_eq_decide.mpr eq_comm
        fin_cases ho
        all_goals
          simp +contextual [firstOf, symbols, binOps, condOps, BinOp.symbol, Extends,
            List.isPrefixOf, heq]

/-! ## Lexemes of tokens -/

/-- The punctuation characters. -/
def punctuation : List Char :=
  [',', ':', '(', ')', '[', ']', '.', ';', '=', '<', '>', '\x7b', '\x7d']

/-- The terminals of the grammar, with what they mean, and marks, each of which tells the position at which
it stands. -/
inductive Token where
  | mark (pos : Nat)
  | word (w : String)
  | punct (c : Char)
  | name (x : String)
  | ident (x : String)
  | type (t : Ty)
  | int (n : Literal)
  | init (x : String)
  | op (o : BinOp)
  | cond (o : BinOp)
  deriving DecidableEq

/-- The brackets of array dimensions. -/
def dims (n : Nat) : List Char :=
  (List.replicate n ['[', ']']).flatten

open Scanner

/-- A lexeme of a token, and the texts in front of which it is taken whole. The slash must not begin a
comment. -/
def Token.Lexes : Token → List Char → List Char → Prop
  | mark _, l, _ => l = []
  | word w, l, t => l = w.toList ∧ w ∈ keywords ∧ ∀ c ∈ t.head?, Text.isWord c = false
  | punct p, l, _ => l = [p] ∧ p ∈ punctuation
  | name x, l, t => l = x.toList ∧ IsDotted l ∧ Unreserved l ∧ EndsName t
  | ident x, l, t =>
    l = x.toList ∧ IsName l ∧ Unreserved l ∧ ∀ c ∈ t.head?, isNameChar c = false
  | type ty, l, t => ∃ x n, l = x ++ dims n ∧ ty = Ty.wrap n (Ty.ofName (String.ofList x)) ∧
    IsDotted x ∧ Unreserved x ∧ (n = 0 → EndsName t) ∧ ¬ ['[', ']'] <+: t
  | int k, l, t => k = ⟨integerValue l, digitCount l⟩ ∧ IsInteger l ∧
    ∀ c ∈ t.head?, Text.isAsciiDigit c = false
  | init x, l, _ => l = x.toList ∧ (x = "<clinit>" ∨ x = "<init>")
  | op o, l, t => l = o.symbol.toList ∧
    ∀ c ∈ t.head?, Extends binOps o c = false ∧ (o = .div → c ≠ '/' ∧ c ≠ '*')
  | cond o, l, t => l = o.symbol.toList ∧ o ∈ condOps ∧ ∀ c ∈ t.head?, Extends condOps o c = false

/-! ## What is ahead -/

/-- The first character of a text, and whether a dot begins a further part of a name there, or a bracket
an array dimension. -/
def ahead (t : List Char) : Option Char × Bool :=
  (t.head?, match t with
    | '.' :: c :: _ => isNameStart c
    | '[' :: c :: _ => c == ']'
    | _ => false)

theorem ahead_append {t t' : List Char} (h : ahead t = ahead t') (z : List Char) :
    ahead (z ++ t) = ahead (z ++ t') := by
  have hhead : t.head? = t'.head? := congrArg Prod.fst h
  match z with
  | [] => exact h
  | [c] =>
      cases t with
      | nil =>
          have ht' : t' = [] := List.head?_eq_none_iff.mp hhead.symm
          rw [ht']
      | cons d t =>
          obtain ⟨u, rfl⟩ : ∃ u, t' = d :: u := by
            cases t' with
            | nil => exact absurd hhead (by simp)
            | cons e u => exact ⟨u, by rw [Option.some.inj hhead]⟩
          by_cases hdot : c = '.'
          · subst hdot; rfl
          · by_cases hbracket : c = '['
            · subst hbracket; rfl
            · simp [ahead, hdot, hbracket]
  | c :: d :: z =>
      by_cases hdot : c = '.'
      · subst hdot; rfl
      · by_cases hbracket : c = '['
        · subst hbracket; rfl
        · simp [ahead, hdot, hbracket]

theorem endsName_congr {t t' : List Char} (h : ahead t = ahead t') (ht : EndsName t) :
    EndsName t' := by
  have hhead : t.head? = t'.head? := congrArg Prod.fst h
  have hflag := congrArg Prod.snd h
  match t' with
  | [] => trivial
  | c :: u =>
      obtain ⟨v, rfl⟩ : ∃ v, t = c :: v := by
        cases t with
        | nil => exact absurd hhead (by simp)
        | cons e v => exact ⟨v, by rw [Option.some.inj hhead]⟩
      by_cases hdot : c = '.'
      · subst hdot
        intro d hd
        cases u with
        | nil => exact absurd hd (by simp)
        | cons d' u =>
            cases hd
            cases v with
            | nil => exact hflag.symm
            | cons e v => exact hflag.symm.trans (ht e rfl)
      · exact (endsName_cons hdot).mpr ((endsName_cons hdot).mp ht)

theorem dims_congr {t t' : List Char} (h : ahead t = ahead t') (ht : ¬ ['[', ']'] <+: t) :
    ¬ ['[', ']'] <+: t' := by
  have hhead : t.head? = t'.head? := congrArg Prod.fst h
  have hflag := congrArg Prod.snd h
  rintro ⟨u, rfl⟩
  match t, hhead with
  | [_], hhead =>
      cases Option.some.inj hhead
      exact absurd hflag (by simp [ahead])
  | _ :: d :: v, hhead =>
      cases Option.some.inj hhead
      have hd : d = ']' := by simpa [ahead] using hflag
      exact ht ⟨v, by rw [hd]; rfl⟩

/-- **Whether a lexeme is taken whole depends on what is ahead only.** -/
theorem Token.Lexes.congr {k : Token} {l t t' : List Char} (h : k.Lexes l t)
    (ha : ahead t = ahead t') : k.Lexes l t' := by
  have hhead : t'.head? = t.head? := congrArg Prod.fst ha.symm
  cases k with
  | mark | punct | init => exact h
  | word w => exact ⟨h.1, h.2.1, hhead ▸ h.2.2⟩
  | name x => exact ⟨h.1, h.2.1, h.2.2.1, endsName_congr ha h.2.2.2⟩
  | ident x => exact ⟨h.1, h.2.1, h.2.2.1, hhead ▸ h.2.2.2⟩
  | type ty =>
      obtain ⟨x, n, hl, hty, hx, hun, hends, hdims⟩ := h
      exact ⟨x, n, hl, hty, hx, hun, fun hn => endsName_congr ha (hends hn), dims_congr ha hdims⟩
  | int k => exact ⟨h.1, h.2.1, hhead ▸ h.2.2⟩
  | op o => exact ⟨h.1, hhead ▸ h.2⟩
  | cond o => exact ⟨h.1, h.2.1, hhead ▸ h.2.2⟩

/-- Characters that end every lexeme. -/
def Delimits (c : Char) : Prop :=
  isNameChar c = false ∧ Text.isAsciiDigit c = false ∧ c ∉ ['.', '[', '<', '>', '=', '/', '*']

theorem delimits_of_isWhite {c : Char} (h : Text.isWhite c = true) : Delimits c :=
  white_spec h

theorem extends_eq_false {ops : List BinOp} {o : BinOp} {c : Char}
    (hc : c ∉ ['<', '>', '=']) : Extends ops o c = false := by
  rw [Extends, List.any_eq_false]
  intro o' _
  have hne : c ≠ '<' ∧ c ≠ '>' ∧ c ≠ '=' := by simpa using hc
  cases o <;> cases o' <;> simp [BinOp.symbol, hne.1, hne.2.1, hne.2.2]

/-- **A delimiter may follow every lexeme.** -/
theorem Token.Lexes.delimited {k : Token} {l t : List Char} (h : k.Lexes l t) {c : Char}
    (hc : Delimits c) (t' : List Char) : k.Lexes l (c :: t') := by
  obtain ⟨hname, hdigit, hmem⟩ := hc
  have hdot : c ≠ '.' := fun hq => hmem (by simp [hq])
  have hends : EndsName (c :: t') := (endsName_cons hdot).mpr hname
  have hext : ∀ ops o, Extends ops o c = false := by
    refine fun ops o => extends_eq_false fun hc => hmem ?_
    simp only [List.mem_cons, List.not_mem_nil, or_false] at hc ⊢
    grind
  cases k with
  | mark | punct | init => exact h
  | word w =>
      refine ⟨h.1, h.2.1, ?_⟩
      rintro d ⟨⟩
      exact isWord_of_isNameChar hname
  | name x => exact ⟨h.1, h.2.1, h.2.2.1, hends⟩
  | ident x =>
      refine ⟨h.1, h.2.1, h.2.2.1, ?_⟩
      rintro d ⟨⟩
      exact hname
  | type ty =>
      obtain ⟨x, n, hl, hty, hx, hun, _, _⟩ := h
      refine ⟨x, n, hl, hty, hx, hun, fun _ => hends, ?_⟩
      rintro ⟨u, hu⟩
      cases hu
      exact hmem (by simp)
  | int k =>
      refine ⟨h.1, h.2.1, ?_⟩
      rintro d ⟨⟩
      exact hdigit
  | op o =>
      refine ⟨h.1, ?_⟩
      rintro d ⟨⟩
      refine ⟨hext _ _, fun _ => ⟨?_, ?_⟩⟩ <;> rintro rfl <;> exact hmem (by simp)
  | cond o =>
      refine ⟨h.1, h.2.1, ?_⟩
      rintro d ⟨⟩
      exact hext _ _

end TacFlow.Grammar
