import TacFlow.Proofs.Grammar.Numbers
import TacFlow.Proofs.Grammar.Sentences

/-!
# Printed text

A text *prints* a row of tokens if it spells them in front of every delimiter. Texts that print are put
together with a space between them, or with a punctuation character. A token is printed by its lexeme,
and an integer by its written form, which counts its digits in its own way.
-/

namespace TacFlow.Grammar

open Source Scanner

variable {k : Token} {ts us : List Token} {l l' s t u : List Char} {p : Char}

/-! ## Rows behind blank space -/

/-- A row of tokens is ahead behind blank space, which may be empty. -/
def Spaced (ts : List Token) (s t : List Char) : Prop :=
  ∃ g u, s = g ++ u ∧ Scanner.blank s = some g.length ∧ Spells none ts u t

theorem Spaced.space (h : Spells none ts s t) (hs : Settled s) : Spaced ts (' ' :: s) t :=
  ⟨[' '], s, rfl, blank_white (g := [' ']) (List.all_eq_true.mp (by decide)) hs, h⟩

theorem Spaced.token (h : Spaced ts s t) (hlexes : k.Lexes l s) (hk : k.isVisible = true) :
    Spells none (k :: ts) (l ++ s) t ∧ Settled (l ++ s) := by
  obtain ⟨g, u, rfl, hblank, hspells⟩ := h
  exact ⟨⟨u, (next_iff hk).mpr ⟨l, g, rfl, hlexes, hblank⟩, hspells⟩, hlexes.settled hk⟩

/-! ## Texts that print -/

instance : DecidablePred Delimits := fun c =>
  inferInstanceAs (Decidable (isNameChar c = false ∧ Text.isAsciiDigit c = false ∧
    c ∉ ['.', '[', '<', '>', '=', '/', '*']))

/-- In front of a delimiter a text spells a row of tokens, with blank space behind it or not. -/
def Prints (ts : List Token) (l : List Char) : Prop :=
  ∀ c u us t, Delimits c → Spaced us (c :: u) t →
    Spells none (ts ++ us) (l ++ c :: u) t ∧ Settled (l ++ c :: u)

/-- A text that begins with a delimiter may stand directly behind another one. -/
theorem Prints.append (h : Prints ts l) (hp : Delimits p) (h' : Prints us (p :: l')) :
    Prints (ts ++ us) (l ++ p :: l') := by
  intro c u vs t hc hvs
  obtain ⟨hspells, hsettled⟩ := h' c u vs t hc hvs
  rw [List.append_assoc, List.append_assoc]
  exact h p _ _ t hp ⟨[], _, rfl, hsettled, hspells⟩

/-- Any text may stand behind a space. -/
theorem Prints.space (h : Prints ts l) (h' : Prints us l') : Prints (ts ++ us) (l ++ ' ' :: l') := by
  intro c u vs t hc hvs
  obtain ⟨hspells, hsettled⟩ := h' c u vs t hc hvs
  rw [List.append_assoc, List.append_assoc]
  exact h ' ' _ _ t (by decide) (Spaced.space hspells hsettled)

theorem prints_punct (hp : p ∈ punctuation) : Prints [.punct p] [p] :=
  fun _ _ _ _ _ hvs => hvs.token ⟨rfl, hp⟩ rfl

/-- Any text may stand behind a punctuation character. -/
theorem Prints.punct (hp : p ∈ punctuation) (h : Prints ts l) : Prints (.punct p :: ts) (p :: l) := by
  intro c u vs t hc hvs
  obtain ⟨hspells, hsettled⟩ := h c u vs t hc hvs
  exact Spaced.token (l := [p]) ⟨[], _, rfl, hsettled, hspells⟩ ⟨rfl, hp⟩ rfl

/-! ## Lexemes -/

/-- A token that has a lexeme. -/
def Token.IsWritten (k : Token) : Prop :=
  ∃ l t, k.Lexes l t

/-- The tokens of a text are written. -/
theorem Spells.isWritten {N : Option Nat} (h : Spells N ts s t) : ∀ k ∈ ts, k.IsWritten := by
  induction ts generalizing s with
  | nil => simp
  | cons k ts ih =>
      obtain ⟨u, hk, hts⟩ := h
      refine List.forall_mem_cons.mpr ⟨?_, ih hts⟩
      cases k with
      | mark p => exact ⟨[], [], rfl⟩
      | _ =>
          obtain ⟨l, g, _, hlexes, _⟩ := hk
          exact ⟨l, _, hlexes⟩

/-- The lexeme of a token. An integer has several ones; this is the shortest. -/
def Token.text : Token → List Char
  | mark _ => []
  | word x | name x | ident x | init x => x.toList
  | punct p => [p]
  | type t => t.text.toList
  | int n => (toString n.value).toList
  | op o | cond o => o.symbol.toList

theorem text_wrap (n : Nat) (t : Ty) : (Ty.wrap n t).text.toList = t.text.toList ++ dims n := by
  induction n generalizing t with
  | zero => simp [Ty.wrap, dims]
  | succ n ih => simp [Ty.wrap, ih, Ty.text, dims, List.replicate_succ]

theorem text_ofName (x : List Char) : (Ty.ofName (String.ofList x)).text.toList = x := by
  unfold Ty.ofName Primitive.ofName?
  split
  · rename_i q hq
    have hname : q.name = String.ofList x := by simpa using List.find?_some hq
    rw [Ty.text, hname, String.toList_ofList]
  · exact String.toList_ofList

theorem Token.Lexes.eq_text (h : k.Lexes l t) (hint : ∀ n, k ≠ .int n) : l = k.text := by
  cases k with
  | mark => exact h
  | type ty =>
      obtain ⟨x, n, rfl, rfl, _⟩ := h
      rw [Token.text, text_wrap, text_ofName]
  | int n => exact absurd rfl (hint n)
  | _ => exact h.1

/-- A token other than an integer is printed by its lexeme. -/
theorem Token.IsWritten.prints (h : k.IsWritten) (hint : ∀ n, k ≠ .int n) (hk : k.isVisible = true) :
    Prints [k] k.text := by
  obtain ⟨l, t, hlexes⟩ := h
  obtain rfl := hlexes.eq_text hint
  exact fun c u _ _ hc hvs => hvs.token (hlexes.delimited hc u) hk

/-- The name of a variable may stand in front of a dot or a bracket as well. -/
theorem Token.IsWritten.prints_ident {x : String} (h : (Token.ident x).IsWritten)
    (hp : isNameChar p = false) (h' : Prints ts (p :: l)) : Prints (.ident x :: ts) (x.toList ++ p :: l) := by
  obtain ⟨_, _, hlexes⟩ := h
  intro c u vs t hc hvs
  obtain ⟨hspells, hsettled⟩ := h' c u vs t hc hvs
  rw [List.append_assoc]
  refine Spaced.token (k := .ident x) ⟨[], _, rfl, hsettled, hspells⟩
    ⟨rfl, hlexes.1 ▸ hlexes.2.1, hlexes.1 ▸ hlexes.2.2.1, ?_⟩ rfl
  rintro d ⟨⟩
  exact hp

/-- An integer as its written form writes it. -/
def canonical (n : Literal) : Literal :=
  ⟨n.value, digitCount (toString n.value).toList⟩

theorem prints_int (n : Literal) : Prints [.int (canonical n)] (toString n.value).toList := by
  intro c u vs t hc hvs
  refine hvs.token ⟨?_, isInteger_toString n.value, ?_⟩ rfl
  · rw [integerValue_toString]
    rfl
  · rintro d ⟨⟩
    exact hc.2.1

/-- The written form of an integer is not too long if some lexeme of it is not. -/
theorem isTooLong_canonical {n : Literal} (h : (Token.int n).IsWritten) (hn : n.isTooLong = false) :
    (canonical n).isTooLong = false := by
  obtain ⟨l, _, rfl, hinteger, _⟩ := h
  have hle := digitCount_toString_le hinteger
  exact decide_eq_false (not_lt.mpr (hle.trans (not_lt.mp (of_decide_eq_false hn))))

/-! ## Lists -/

theorem mem_listed {α : Type} {tokens : α → List Token} {a : α} {as : List α} (ha : a ∈ as)
    (hk : k ∈ tokens a) : k ∈ listed tokens as := by
  cases as with
  | nil => simp at ha
  | cons b bs =>
      rcases List.mem_cons.mp ha with rfl | ha
      · exact List.mem_append_left _ hk
      · exact List.mem_append_right _ (List.mem_flatMap.mpr ⟨a, ha, List.mem_cons_of_mem _ hk⟩)

theorem intercalate_cons {α : Type} (sep l : List α) (ls : List (List α)) :
    sep.intercalate (l :: ls) = l ++ ls.flatMap (sep ++ ·) := by
  induction ls generalizing l with
  | nil => simp
  | cons l' ls ih => rw [List.intercalate_cons_cons, ih]; simp

/-- Parts are printed with a separator between them, a comma or a comma and a space, in front of a closing
parenthesis. -/
theorem prints_listed {α β : Type} {tokens : α → List Token} {text : β → List Char} {sep : List Char}
    (hsep : sep = [','] ∨ sep = [',', ' ']) {as : List α} {bs : List β}
    (h : List.Forall₂ (fun a b => Prints (tokens a) (text b)) as bs) (hclose : Prints us (')' :: l)) :
    Prints (listed tokens as ++ us) (sep.intercalate (bs.map text) ++ ')' :: l) := by
  cases h with
  | nil => exact hclose
  | @cons a b as bs ha has =>
      -- behind a part there is the next separator or the closing parenthesis
      have hrest : ∃ p l', (bs.map text).flatMap (sep ++ ·) ++ ')' :: l = p :: l' ∧ Delimits p ∧
          Prints ((as.flatMap fun a => .punct ',' :: tokens a) ++ us) (p :: l') := by
        clear ha
        induction has with
        | nil => exact ⟨')', l, rfl, by decide, hclose⟩
        | @cons a b as bs ha _ ih =>
            obtain ⟨p, l', hl, hp, hrest⟩ := ih
            have hparts := ha.append hp hrest
            rw [List.map_cons, List.flatMap_cons, List.flatMap_cons, List.append_assoc, List.append_assoc,
              List.append_assoc, hl]
            rcases hsep with rfl | rfl
            · exact ⟨',', _, rfl, by decide, hparts.punct (by decide)⟩
            · exact ⟨',', _, rfl, by decide, (prints_punct (by decide)).space hparts⟩
      obtain ⟨p, l', hl, hp, hrest⟩ := hrest
      rw [List.map_cons, intercalate_cons, List.append_assoc, hl, listed, List.append_assoc]
      exact ha.append hp hrest

end TacFlow.Grammar
