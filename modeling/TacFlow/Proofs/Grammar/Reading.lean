import Mathlib.Data.List.Forall2
import TacFlow.Grammar.Rule

/-!
# Reading by rules

What the combinators of rules read and where they fail, as equivalences, so that a production can be
taken apart into its tokens. In the other direction a rule is shown to read by what is ahead: it
*parses* a stretch of text if from every cursor in front of the stretch it reads the value and stops
behind it, and it *refuses* a text if it fails at every cursor in front of it.

Repetition stops where its rule fails, so it parses a row of stretches up to a text that the rule
refuses.
-/

namespace TacFlow.Grammar.Rule

variable {α β : Type} {r s : Rule α} {f : α → Rule β} {c c' d : Cursor} {a : α} {b : β}
  {t t' t'' : List Char}

/-- The rule reads a value from a cursor up to another one. -/
def Reads (r : Rule α) (c : Cursor) (a : α) (d : Cursor) : Prop :=
  (r c).result = some (a, d)

/-- The rule fails at a cursor. -/
def FailsAt (r : Rule α) (c : Cursor) : Prop :=
  (r c).result = none

theorem Reads.unique {a' : α} {d' : Cursor} (h : Reads r c a d) (h' : Reads r c a' d') :
    a = a' ∧ d = d' := by
  have heq : some (a, d) = some (a', d') := h.symm.trans h'
  simpa using heq

theorem failsAt_iff : FailsAt r c ↔ ∀ a d, ¬ Reads r c a d := by
  unfold FailsAt Reads
  cases (r c).result with
  | none => simp
  | some x => simp only [reduceCtorEq, false_iff, not_forall, not_not]; exact ⟨x.1, x.2, rfl⟩

/-! ## Combinators -/

theorem reads_pure {a' : α} : Reads (pure a) c a' d ↔ a' = a ∧ d = c := by
  change some (a, c) = some (a', d) ↔ _
  simp [eq_comm]

theorem reads_bind :
    Reads (r >>= f) c b d ↔ ∃ a c', Reads r c a c' ∧ Reads (f a) c' b d := by
  change (andThen r f c).result = some (b, d) ↔ ∃ a c', (r c).result = some (a, c') ∧ _
  unfold andThen
  split <;> rename_i hr
  · simp [hr]
  · simp [hr, Reads]

theorem failsAt_bind :
    FailsAt (r >>= f) c ↔ FailsAt r c ∨ ∃ a c', Reads r c a c' ∧ FailsAt (f a) c' := by
  change (andThen r f c).result = none ↔ (r c).result = none ∨ ∃ a c', (r c).result = some (a, c') ∧ _
  unfold andThen
  split <;> rename_i hr
  · simp [hr]
  · simp [hr, FailsAt]

theorem reads_orElse :
    Reads (r <|> s) c a d ↔ Reads r c a d ∨ FailsAt r c ∧ Reads s c a d := by
  change (orElse r (fun _ => s) c).result = some (a, d) ↔
    (r c).result = some (a, d) ∨ (r c).result = none ∧ _
  unfold orElse
  split
  · rename_i hr
    simp [hr, Reads]
  · rename_i hr
    cases hres : (r c).result with
    | none => exact absurd (show r c = ⟨(r c).furthest, none⟩ by rw [← hres]) (hr _)
    | some x => simp

theorem failsAt_orElse : FailsAt (r <|> s) c ↔ FailsAt r c ∧ FailsAt s c := by
  change (orElse r (fun _ => s) c).result = none ↔ (r c).result = none ∧ _
  unfold orElse
  split
  · rename_i hr
    simp [hr, FailsAt]
  · rename_i hr
    cases hres : (r c).result with
    | none => exact absurd (show r c = ⟨(r c).furthest, none⟩ by rw [← hres]) (hr _)
    | some x => simp

theorem result_named : (named r c).result = (r c).result := by
  unfold named
  split
  · rename_i hr
    rw [hr]
  · rfl

theorem reads_named : Reads (named r) c a d ↔ Reads r c a d := by
  rw [Reads, result_named, Reads]

theorem failsAt_named : FailsAt (named r) c ↔ FailsAt r c := by
  rw [FailsAt, result_named, FailsAt]

theorem reads_notAhead {u : Unit} : Reads (notAhead r) c u d ↔ FailsAt r c ∧ d = c := by
  unfold Reads FailsAt notAhead
  split <;> rename_i hr <;> simp [hr, eq_comm]

theorem reads_optional {o : Option α} : Reads (optional r) c o d ↔
    o = none ∧ d = c ∧ (c.rest = [] ∨ FailsAt r c) ∨
      ∃ a, o = some a ∧ c.rest ≠ [] ∧ Reads r c a d := by
  unfold Reads FailsAt optional
  split
  · rename_i hempty
    have hrest : c.rest = [] := by simpa using hempty
    simp [hrest, eq_comm]
  · rename_i hmore
    have hrest : c.rest ≠ [] := by simpa using hmore
    split <;> rename_i hr <;> simp [hr, hrest, eq_comm, and_comm]

theorem reads_position {n : Nat} : Reads position c n d ↔ n = c.pos ∧ d = c := by
  change some (c.pos, c) = some (n, d) ↔ _
  simp [eq_comm]

theorem reads_lexeme {scan : List Char → Option Nat} {l : List Char} :
    Reads (lexeme scan) c l d ↔
      ∃ n, scan c.rest = some n ∧ l = c.rest.take n ∧ d = c.advance n := by
  unfold Reads lexeme
  split <;> rename_i hs <;> simp [hs, eq_comm]

theorem failsAt_lexeme {scan : List Char → Option Nat} :
    FailsAt (lexeme scan) c ↔ scan c.rest = none := by
  unfold FailsAt lexeme
  split <;> rename_i hs <;> simp [hs]

theorem reads_oneOf {choices : List (List Char × α)} : Reads (oneOf choices) c a d ↔
    ∃ word, choices.find? (fun choice => choice.1.isPrefixOf c.rest) = some (word, a) ∧
      d = c.advance word.length := by
  unfold Reads oneOf
  split
  · rename_i hs
    simp [hs]
  · rename_i word x hs
    rw [hs]
    constructor
    · rintro ⟨⟩
      exact ⟨word, rfl, rfl⟩
    · rintro ⟨_, ⟨⟩, rfl⟩
      rfl

theorem failsAt_oneOf {choices : List (List Char × α)} : FailsAt (oneOf choices) c ↔
    ∀ choice ∈ choices, ¬ choice.1 <+: c.rest := by
  unfold FailsAt oneOf
  split
  · rename_i hs
    simpa using hs
  · rename_i word x hs
    simp only [reduceCtorEq, false_iff]
    intro hnone
    have hprefix : word.isPrefixOf c.rest = true := by simpa using List.find?_some hs
    exact hnone _ (List.mem_of_find?_eq_some hs) (List.isPrefixOf_iff_prefix.mp hprefix)

/-! ## Repetition -/

/-- The rule reads one value after the other. -/
inductive Runs (r : Rule α) : Cursor → List α → Cursor → Prop where
  | nil (c : Cursor) : Runs r c [] c
  | cons {c c' d : Cursor} {a : α} {as : List α} : Reads r c a c' → Runs r c' as d →
      Runs r c (a :: as) d

/-- A repetition reads one value after the other. -/
theorem runs_of_reads_many {as : List α} (h : Reads (many r) c as d) : Runs r c as d := by
  have key : ∀ fuel c as d, Reads (manyWithin r fuel) c as d → Runs r c as d := by
    intro fuel
    induction fuel with
    | zero =>
        intro c as d h
        obtain ⟨rfl, rfl⟩ := reads_pure.mp h
        exact .nil d
    | succ fuel ih =>
        intro c as d h
        unfold Reads manyWithin at h
        split at h
        · cases h
          exact .nil c
        · split at h
          · cases h
            exact .nil c
          · rename_i n a c' hr
            have hread : Reads r c a c' := by rw [Reads, hr]
            split at h
            · cases h
              exact .cons hread (.nil _)
            · obtain ⟨⟨rest, d'⟩, hrest, heq⟩ := Option.map_eq_some_iff.mp h
              obtain ⟨rfl, rfl⟩ : a :: rest = as ∧ d' = d := by simpa using heq
              exact .cons hread (ih c' rest d' hrest)
  exact key _ c as d h

/-! ## Stretches of text -/

/-- From every cursor in front of the first text the rule reads a value with the property and stops
in front of the second text. -/
def ParsesTo (r : Rule α) (P : α → Prop) (t t' : List Char) : Prop :=
  ∀ c, c.rest = t → ∃ a d, Reads r c a d ∧ P a ∧ d.rest = t' ∧
    d.pos + t'.length = c.pos + t.length

/-- From every cursor in front of the first text the rule reads the value and stops in front of the
second text. -/
def Parses (r : Rule α) (a : α) (t t' : List Char) : Prop :=
  ParsesTo r (· = a) t t'

/-- What a rule parses it reads between cursors there. -/
theorem Parses.reads (h : Parses r a c.rest d.rest)
    (hd : d.pos + d.rest.length = c.pos + c.rest.length) : Reads r c a d := by
  obtain ⟨_, d', hr, rfl, hrest, hpos⟩ := h c rfl
  have heq : d' = d := by
    cases d
    cases d'
    simp_all
    omega
  exact heq ▸ hr

/-- The rule fails at every cursor in front of the text. -/
def Refuses (r : Rule α) (t : List Char) : Prop :=
  ∀ c, c.rest = t → FailsAt r c

section

variable {P P' : α → Prop} {Q : β → Prop}

theorem ParsesTo.imp (h : ParsesTo r P t t') (hP : ∀ a, P a → P' a) : ParsesTo r P' t t' := by
  intro c hc
  obtain ⟨a, d, hr, ha, hd⟩ := h c hc
  exact ⟨a, d, hr, hP a ha, hd⟩

theorem parsesTo_pure (h : P a) : ParsesTo (pure a) P t t := by
  intro c hc
  exact ⟨a, c, reads_pure.mpr ⟨rfl, rfl⟩, h, hc, rfl⟩

theorem parses_pure : Parses (pure a) a t t :=
  parsesTo_pure rfl

theorem ParsesTo.bind (h : ParsesTo r P t t') (hf : ∀ a, P a → ParsesTo (f a) Q t' t'') :
    ParsesTo (r >>= f) Q t t'' := by
  intro c hc
  obtain ⟨a, c', hr, ha, hc', hpos⟩ := h c hc
  obtain ⟨b, d, hb, hQ, hd, hpos'⟩ := hf a ha c' hc'
  exact ⟨b, d, reads_bind.mpr ⟨a, c', hr, hb⟩, hQ, hd, by rw [hpos', hpos]⟩

theorem Parses.bindTo (h : Parses r a t t') (hf : ParsesTo (f a) Q t' t'') :
    ParsesTo (r >>= f) Q t t'' := by
  refine ParsesTo.bind h ?_
  rintro _ rfl
  exact hf

theorem Parses.bind (h : Parses r a t t') (hf : Parses (f a) b t' t'') :
    Parses (r >>= f) b t t'' :=
  h.bindTo hf

theorem parsesTo_position {f : Nat → Rule β} (hf : ∀ n, ParsesTo (f n) Q t t') :
    ParsesTo (position >>= f) Q t t' := by
  intro c hc
  obtain ⟨b, d, hb, hd⟩ := hf c.pos c hc
  exact ⟨b, d, reads_bind.mpr ⟨_, _, reads_position.mpr ⟨rfl, rfl⟩, hb⟩, hd⟩

theorem ParsesTo.named (h : ParsesTo r P t t') : ParsesTo r.named P t t' := by
  intro c hc
  obtain ⟨a, d, hr, hd⟩ := h c hc
  exact ⟨a, d, reads_named.mpr hr, hd⟩

theorem Parses.named (h : Parses r a t t') : Parses r.named a t t' :=
  ParsesTo.named h

theorem ParsesTo.orElse_left (h : ParsesTo r P t t') : ParsesTo (r <|> s) P t t' := by
  intro c hc
  obtain ⟨a, d, hr, hd⟩ := h c hc
  exact ⟨a, d, reads_orElse.mpr (Or.inl hr), hd⟩

theorem ParsesTo.orElse_right (h : ParsesTo s P t t') (hr : Refuses r t) :
    ParsesTo (r <|> s) P t t' := by
  intro c hc
  obtain ⟨a, d, hs, hd⟩ := h c hc
  exact ⟨a, d, reads_orElse.mpr (Or.inr ⟨hr c hc, hs⟩), hd⟩

theorem Parses.orElse_left (h : Parses r a t t') : Parses (r <|> s) a t t' :=
  ParsesTo.orElse_left h

theorem Parses.orElse_right (h : Parses s a t t') (hr : Refuses r t) : Parses (r <|> s) a t t' :=
  ParsesTo.orElse_right h hr

theorem ParsesTo.optional (h : ParsesTo r P t t') (hne : t ≠ []) :
    ParsesTo (optional r) (fun o => ∃ a, o = some a ∧ P a) t t' := by
  intro c hc
  obtain ⟨a, d, hr, ha, hd⟩ := h c hc
  exact ⟨some a, d, reads_optional.mpr (Or.inr ⟨a, rfl, hc ▸ hne, hr⟩), ⟨a, rfl, ha⟩, hd⟩

theorem Parses.optional (h : Parses r a t t') (hne : t ≠ []) :
    Parses (optional r) (some a) t t' := by
  refine (ParsesTo.optional h hne).imp ?_
  rintro _ ⟨_, rfl, rfl⟩
  rfl

theorem parses_optional_none (h : Refuses r t) : Parses (optional r) none t t := by
  intro c hc
  exact ⟨none, c, reads_optional.mpr (Or.inl ⟨rfl, rfl, Or.inr (h c hc)⟩), rfl, hc, rfl⟩

/-! ## Refusal -/

theorem Refuses.bind (h : Refuses r t) : Refuses (r >>= f) t :=
  fun c hc => failsAt_bind.mpr (Or.inl (h c hc))

theorem Parses.bind_refuses (h : Parses r a t t') (hf : Refuses (f a) t') : Refuses (r >>= f) t := by
  intro c hc
  obtain ⟨_, d, hr, rfl, hd, _⟩ := h c hc
  exact failsAt_bind.mpr (Or.inr ⟨_, d, hr, hf d hd⟩)

theorem Refuses.named (h : Refuses r t) : Refuses r.named t :=
  fun c hc => failsAt_named.mpr (h c hc)

theorem Refuses.orElse (h : Refuses r t) (h' : Refuses s t) : Refuses (r <|> s) t :=
  fun c hc => failsAt_orElse.mpr ⟨h c hc, h' c hc⟩

theorem refuses_position {f : Nat → Rule β} (hf : ∀ n, Refuses (f n) t) :
    Refuses (position >>= f) t := by
  intro c hc
  exact failsAt_bind.mpr (Or.inr ⟨_, _, reads_position.mpr ⟨rfl, rfl⟩, hf c.pos c hc⟩)

/-! ## Rows of stretches -/

/-- One stretch of text after the other, one for each value of a list. -/
inductive Row {γ : Type} (S : γ → List Char → List Char → Prop) :
    List γ → List Char → List Char → Prop where
  | nil (t : List Char) : Row S [] t t
  | cons {t t' t'' : List Char} {a : γ} {as : List γ} : S a t t' → Row S as t' t'' →
      Row S (a :: as) t t''

/-- A repetition parses a row of stretches, none of which is empty, up to the end of the text or a text
that its rule refuses. -/
theorem parsesTo_many {R : α → α → Prop} {as : List α}
    (h : Row (fun a t t' => ParsesTo r (R a) t t' ∧ t'.length < t.length) as t t')
    (hstop : t' = [] ∨ Refuses r t') : ParsesTo (many r) (List.Forall₂ R as) t t' := by
  have key : ∀ fuel c, c.rest = t → t.length ≤ fuel → ∃ as' d, Reads (manyWithin r fuel) c as' d ∧
      List.Forall₂ R as as' ∧ d.rest = t' ∧ d.pos + t'.length = c.pos + t.length := by
    induction h with
    | nil t =>
        intro fuel c hc _
        refine ⟨[], c, ?_, .nil, hc, rfl⟩
        cases fuel with
        | zero => exact reads_pure.mpr ⟨rfl, rfl⟩
        | succ fuel =>
            unfold Reads manyWithin
            split
            · rfl
            · rename_i hmore
              have hfails : (r c).result = none := by
                rcases hstop with rfl | hstop
                · exact absurd hc (by simpa using hmore)
                · exact hstop c hc
              split <;> rename_i hr
              · rfl
              · rw [hr] at hfails
                exact absurd hfails (by simp)
    | @cons t u t' a as ha _ ih =>
        intro fuel c hc hfuel
        obtain ⟨hparses, hshorter⟩ := ha
        obtain ⟨a', c', hr, hR, hc', hpos⟩ := hparses c hc
        obtain ⟨k, rfl⟩ : ∃ k, fuel = k + 1 := ⟨fuel - 1, by omega⟩
        obtain ⟨as', d, hmany, hall, hd, hpos'⟩ := ih hstop k c' hc' (by omega)
        refine ⟨a' :: as', d, ?_, .cons hR hall, hd, by omega⟩
        have hne : c.rest.isEmpty = false := by
          rw [hc]
          cases t with
          | nil => exact absurd hshorter (by simp)
          | cons x t => rfl
        unfold Reads manyWithin
        rw [if_neg (by simp [hne])]
        split <;> rename_i hres
        · rw [Reads, hres] at hr
          exact absurd hr (by simp)
        · rw [Reads, hres] at hr
          cases hr
          rw [if_neg (by omega)]
          change Option.map _ (manyWithin r k _).result = _
          rw [show (manyWithin r k _).result = some (as', d) from hmany]
          rfl
  intro c hc
  exact key _ c hc (Nat.le_of_eq (congrArg List.length hc.symm))

theorem parses_many {as : List α}
    (h : Row (fun a t t' => Parses r a t t' ∧ t'.length < t.length) as t t')
    (hstop : t' = [] ∨ Refuses r t') : Parses (many r) as t t' := by
  refine (parsesTo_many (R := fun a b => b = a) h hstop).imp fun bs hbs => ?_
  clear h
  induction hbs with
  | nil => rfl
  | cons hab _ ih => rw [hab, ih]

end

end TacFlow.Grammar.Rule
