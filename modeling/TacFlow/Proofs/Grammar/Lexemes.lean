import Mathlib.Data.List.TakeWhile
import TacFlow.Grammar.Production
import TacFlow.Proofs.Grammar.Separators
import TacFlow.Proofs.Text.Characters

/-!
# Lexemes

How the scanners for names, numbers, words and operators divide a text. Each takes a lexeme of its own
form, as long as it can be, so what it takes is told by the form of the lexeme and by what may not
follow it. Of what follows only the first character counts, and behind a dot or a bracket that of
the next one: that is what the text is like `ahead`.
-/

namespace TacFlow.Grammar

open Source

namespace Scanner

/-! ## Characters -/

/-- White space is no part of a lexeme. -/
theorem white_spec {c : Char} (h : Text.isWhite c = true) :
    isNameChar c = false ∧ Text.isAsciiDigit c = false ∧
      c ∉ ['.', '[', '<', '>', '=', '/', '*'] :=
  Text.forall_white (fun c => isNameChar c = false ∧ Text.isAsciiDigit c = false ∧
    c ∉ ['.', '[', '<', '>', '=', '/', '*']) (by decide +kernel) h

theorem isNameStart_spec {c : Char} (h : isNameStart c = true) :
    isNameChar c = true ∧ Text.isWhite c = false ∧ c ≠ '/' ∧ c ≠ '-' ∧ c ≠ '<' ∧ c ≠ '(' ∧
      Text.isAsciiDigit c = false := by
  have hlt : c.toNat < 128 := by
    simp only [isNameStart, Bool.or_eq_true, beq_iff_eq] at h
    rcases h with (h | rfl) | rfl
    · exact Text.toNat_lt_of_isAsciiWord (by simp [Text.isAsciiWord, h])
    · decide
    · decide
  exact Text.forall_ascii (fun c => isNameStart c = true → isNameChar c = true ∧
    Text.isWhite c = false ∧ c ≠ '/' ∧ c ≠ '-' ∧ c ≠ '<' ∧ c ≠ '(' ∧ Text.isAsciiDigit c = false)
    (by decide +kernel) hlt h

theorem isAsciiDigit_spec {c : Char} (h : Text.isAsciiDigit c = true) :
    Text.isWhite c = false ∧ c ≠ '/' ∧ c ≠ '-' ∧ isNameStart c = false := by
  have hlt : c.toNat < 128 := Text.toNat_lt_of_isAsciiWord (by simp [Text.isAsciiWord, h])
  exact Text.forall_ascii (fun c => Text.isAsciiDigit c = true →
    Text.isWhite c = false ∧ c ≠ '/' ∧ c ≠ '-' ∧ isNameStart c = false) (by decide +kernel) hlt h

theorem isWord_of_isNameChar {c : Char} (h : isNameChar c = false) : Text.isWord c = false := by
  rw [isNameChar, Bool.or_eq_false_iff] at h
  exact h.1

/-! ## Words -/

/-- The word characters ahead. -/
def run (s : List Char) : List Char :=
  s.takeWhile Text.isWord

/-- No keyword is ahead. -/
def Unreserved (s : List Char) : Prop :=
  ∀ w ∈ keywords, run s ≠ w.toList

theorem run_append {l t : List Char} (ht : ∀ c ∈ t.head?, Text.isWord c = false) :
    run (l ++ t) = run l := by
  have hstop : t.takeWhile Text.isWord = [] := by
    cases t with
    | nil => rfl
    | cons c t => exact List.takeWhile_cons_of_neg (by simp [ht c rfl])
  rw [run, run, List.takeWhile_append]
  split
  · rename_i hall
    rw [hstop, List.append_nil]
    exact ((List.takeWhile_prefix _).eq_of_length hall).symm
  · rfl

/-- A whole word is taken where no word character follows it. -/
theorem word_eq_some {w : String} {s : List Char} {n : Nat} :
    word w s = some n ↔ n = w.length ∧ ∃ t, s = w.toList ++ t ∧ ∀ c ∈ t.head?, Text.isWord c = false := by
  have hlength : w.toList.length = w.length := String.length_toList
  unfold word
  constructor
  · intro h
    split at h
    · rename_i hw
      rw [Bool.and_eq_true, List.isPrefixOf_iff_prefix] at hw
      obtain ⟨⟨t, rfl⟩, hw⟩ := hw
      cases h
      refine ⟨rfl, t, rfl, fun c hc => ?_⟩
      rw [← hlength, List.drop_left] at hw
      simpa [Option.mem_def.mp hc] using hw
    · exact absurd h (by simp)
  · rintro ⟨rfl, t, rfl, ht⟩
    rw [if_pos]
    rw [Bool.and_eq_true, List.isPrefixOf_iff_prefix]
    refine ⟨List.prefix_append _ _, ?_⟩
    rw [← hlength, List.drop_left]
    cases hc : t.head? with
    | none => rfl
    | some c => simp [ht c hc]

theorem isWord_of_mem_keywords {w : String} (hw : w ∈ keywords) :
    ∀ c ∈ w.toList, Text.isWord c = true := by
  have hall : ∀ w ∈ keywords, w.toList.all Text.isWord = true := by decide +kernel
  exact List.all_eq_true.mp (hall w hw)

/-- A keyword is taken exactly where it is the run of word characters ahead. -/
theorem word_eq_none {w : String} (hw : w ∈ keywords) {s : List Char} :
    word w s = none ↔ run s ≠ w.toList := by
  rw [Option.eq_none_iff_forall_ne_some]
  constructor
  · intro hnone hrun
    refine hnone w.length (word_eq_some.mpr ⟨rfl, s.dropWhile Text.isWord, ?_, ?_⟩)
    · rw [← hrun, run, List.takeWhile_append_dropWhile]
    · intro c hc
      have hhead := List.head?_dropWhile_not Text.isWord s
      rw [Option.mem_def.mp hc] at hhead
      simpa using hhead
  · intro hrun n hn
    obtain ⟨_, t, rfl, ht⟩ := word_eq_some.mp hn
    refine hrun ?_
    rw [run_append ht]
    exact List.takeWhile_eq_self_iff.mpr (isWord_of_mem_keywords hw)

theorem keyword_eq_none {s : List Char} : keyword s = none ↔ Unreserved s := by
  rw [keyword, List.findSome?_eq_none_iff]
  exact forall₂_congr fun w hw => word_eq_none hw

/-! ## Names -/

/-- A name without dots. -/
def IsName : List Char → Prop
  | [] => False
  | c :: cs => isNameStart c = true ∧ ∀ d ∈ cs, isNameChar d = true

theorem name_eq_some {s : List Char} {n : Nat} :
    name s = some n ↔ ∃ l t, s = l ++ t ∧ l.length = n ∧ IsName l ∧
      ∀ c ∈ t.head?, isNameChar c = false := by
  constructor
  · intro h
    cases s with
    | nil => exact absurd h (by simp [name])
    | cons c cs =>
        simp only [name, Option.ite_none_right_eq_some, Option.some.injEq] at h
        obtain ⟨hc, rfl⟩ := h
        refine ⟨c :: cs.takeWhile isNameChar, cs.dropWhile isNameChar, ?_, by simp [Nat.add_comm],
          ⟨hc, fun d hd => List.mem_takeWhile_imp hd⟩, fun d hd => ?_⟩
        · rw [List.cons_append, List.takeWhile_append_dropWhile]
        · have hhead := List.head?_dropWhile_not isNameChar cs
          rw [Option.mem_def.mp hd] at hhead
          simpa using hhead
  · rintro ⟨l, t, rfl, rfl, hl, ht⟩
    cases l with
    | nil => exact absurd hl id
    | cons c cs =>
        have htake : (cs ++ t).takeWhile isNameChar = cs := by
          rw [List.takeWhile_append_of_pos hl.2]
          cases t with
          | nil => simp
          | cons d t => rw [List.takeWhile_cons_of_neg (by simp [ht d rfl]), List.append_nil]
        rw [List.cons_append, name, if_pos hl.1, htake, List.length_cons, Nat.add_comm]

/-- What may follow the first character of a dotted name. -/
inductive DottedTail : List Char → Prop where
  | nil : DottedTail []
  | dot {c : Char} {cs : List Char} : isNameStart c = true → DottedTail cs →
      DottedTail ('.' :: c :: cs)
  | char {c : Char} {cs : List Char} : isNameChar c = true → DottedTail cs → DottedTail (c :: cs)

/-- Names joined by dots. -/
def IsDotted : List Char → Prop
  | [] => False
  | c :: cs => isNameStart c = true ∧ DottedTail cs

/-- The text ahead does not continue a dotted name. -/
def EndsName : List Char → Prop
  | [] => True
  | '.' :: t => ∀ c ∈ t.head?, isNameStart c = false
  | c :: _ => isNameChar c = false

theorem endsName_cons {c : Char} {t : List Char} (hc : c ≠ '.') :
    EndsName (c :: t) ↔ isNameChar c = false := by
  unfold EndsName
  split
  · simp_all
  · rename_i heq
    exact absurd (List.cons.inj heq).1 hc
  · rename_i heq
    rw [(List.cons.inj heq).1]

theorem dottedRest_append {l t : List Char} (hl : DottedTail l) (ht : EndsName t) :
    dottedRest (l ++ t) = l.length := by
  induction hl with
  | nil =>
      rw [List.nil_append]
      unfold dottedRest
      split
      · exact if_neg (by simp [ht _ rfl])
      · rename_i c cs hdot
        refine if_neg ?_
        unfold EndsName at ht
        split at ht <;> rename_i heq
        · cases heq
        · cases heq
          exact (by decide : ¬ isNameChar '.' = true)
        · cases heq
          simp [ht]
      · rfl
  | dot hc _ ih => rw [List.cons_append, List.cons_append, dottedRest, if_pos hc, ih]; simp; omega
  | @char c cs hc _ ih =>
      rw [List.cons_append, dottedRest, if_pos hc, ih]
      · simp; omega
      · rintro d ds rfl
        exact absurd hc (by decide)

theorem exists_dottedTail (s : List Char) :
    ∃ l t, s = l ++ t ∧ l.length = dottedRest s ∧ DottedTail l ∧ EndsName t := by
  fun_induction dottedRest s with
  | case1 c cs hc ih =>
      obtain ⟨l, t, rfl, hlength, hl, ht⟩ := ih
      exact ⟨'.' :: c :: l, t, rfl, by simp [hlength]; omega, .dot hc hl, ht⟩
  | case2 c cs hc =>
      refine ⟨[], '.' :: c :: cs, rfl, rfl, .nil, ?_⟩
      rintro d ⟨⟩
      simpa using hc
  | case3 c cs _ hc ih =>
      obtain ⟨l, t, rfl, hlength, hl, ht⟩ := ih
      exact ⟨c :: l, t, rfl, by simp [hlength]; omega, .char hc hl, ht⟩
  | case4 c cs hdot hc =>
      refine ⟨[], c :: cs, rfl, rfl, .nil, ?_⟩
      unfold EndsName
      split
      · trivial
      · rename_i t heq
        obtain ⟨rfl, rfl⟩ := List.cons.inj heq
        cases cs with
        | nil => simp
        | cons d ds => exact absurd rfl (hdot d ds rfl)
      · rename_i heq
        obtain ⟨rfl, rfl⟩ := List.cons.inj heq
        simpa using hc
  | case5 => exact ⟨[], [], rfl, rfl, .nil, trivial⟩

theorem dottedName_eq_some {s : List Char} {n : Nat} :
    dottedName s = some n ↔ ∃ l t, s = l ++ t ∧ l.length = n ∧ IsDotted l ∧ EndsName t := by
  constructor
  · intro h
    cases s with
    | nil => exact absurd h (by simp [dottedName])
    | cons c cs =>
        simp only [dottedName, Option.ite_none_right_eq_some, Option.some.injEq] at h
        obtain ⟨hc, rfl⟩ := h
        obtain ⟨l, t, rfl, hlength, hl, ht⟩ := exists_dottedTail cs
        exact ⟨c :: l, t, rfl, by simp [hlength, Nat.add_comm], ⟨hc, hl⟩, ht⟩
  · rintro ⟨l, t, rfl, rfl, hl, ht⟩
    cases l with
    | nil => exact absurd hl id
    | cons c cs =>
        rw [List.cons_append, dottedName, if_pos hl.1, dottedRest_append hl.2 ht, List.length_cons,
          Nat.add_comm]

/-! ## Numbers -/

/-- Digits with an optional minus sign. -/
def IsInteger (l : List Char) : Prop :=
  ∃ ds, ds ≠ [] ∧ (∀ d ∈ ds, Text.isAsciiDigit d = true) ∧ (l = ds ∨ l = '-' :: ds)

theorem digits_eq_some {s : List Char} {n : Nat} :
    digits s = some n ↔ ∃ l t, s = l ++ t ∧ l.length = n ∧
      (l ≠ [] ∧ ∀ d ∈ l, Text.isAsciiDigit d = true) ∧ ∀ c ∈ t.head?, Text.isAsciiDigit c = false := by
  constructor
  · intro h
    unfold digits at h
    split at h
    · exact absurd h (by simp)
    · rename_i hne
      cases h
      refine ⟨s.takeWhile Text.isAsciiDigit, s.dropWhile Text.isAsciiDigit,
        (List.takeWhile_append_dropWhile).symm, rfl,
        ⟨fun hnil => hne hnil, fun d hd => List.mem_takeWhile_imp hd⟩, fun d hd => ?_⟩
      have hhead := List.head?_dropWhile_not Text.isAsciiDigit s
      rw [Option.mem_def.mp hd] at hhead
      simpa using hhead
  · rintro ⟨l, t, rfl, rfl, ⟨hne, hl⟩, ht⟩
    have htake : (l ++ t).takeWhile Text.isAsciiDigit = l := by
      rw [List.takeWhile_append_of_pos hl]
      cases t with
      | nil => simp
      | cons d t => rw [List.takeWhile_cons_of_neg (by simp [ht d rfl]), List.append_nil]
    unfold digits
    rw [htake]
    split
    · exact absurd rfl hne
    · rfl

theorem integer_eq_some {s : List Char} {n : Nat} :
    integer s = some n ↔ ∃ l t, s = l ++ t ∧ l.length = n ∧ IsInteger l ∧
      ∀ c ∈ t.head?, Text.isAsciiDigit c = false := by
  constructor
  · intro h
    unfold integer at h
    split at h
    · obtain ⟨k, hk, rfl⟩ := Option.map_eq_some_iff.mp h
      obtain ⟨ds, t, rfl, rfl, ⟨hne, hds⟩, ht⟩ := digits_eq_some.mp hk
      exact ⟨'-' :: ds, t, rfl, rfl, ⟨ds, hne, hds, Or.inr rfl⟩, ht⟩
    · obtain ⟨ds, t, rfl, rfl, ⟨hne, hds⟩, ht⟩ := digits_eq_some.mp h
      exact ⟨ds, t, rfl, rfl, ⟨ds, hne, hds, Or.inl rfl⟩, ht⟩
  · rintro ⟨l, t, rfl, rfl, ⟨ds, hne, hds, rfl | rfl⟩, ht⟩
    · have hdigits := digits_eq_some.mpr ⟨l, t, rfl, rfl, ⟨hne, hds⟩, ht⟩
      obtain ⟨d, ds, rfl⟩ := List.exists_cons_of_ne_nil hne
      have hd := isAsciiDigit_spec (hds d List.mem_cons_self)
      unfold integer
      split
      · rename_i heq
        exact absurd (List.cons.inj heq).1 hd.2.2.1
      · exact hdigits
    · have hdigits := digits_eq_some.mpr ⟨ds, t, rfl, rfl, ⟨hne, hds⟩, ht⟩
      rw [List.cons_append, integer, hdigits]
      rfl

/-! ## Names of constructors and class initializers -/

theorem initializer_eq_some {s : List Char} {n : Nat} :
    initializer s = some n ↔ ∃ l t, s = l ++ t ∧ l.length = n ∧
      (l = "<clinit>".toList ∨ l = "<init>".toList) := by
  constructor
  · intro h
    unfold initializer at h
    split at h
    · rename_i hp
      obtain ⟨t, rfl⟩ := List.isPrefixOf_iff_prefix.mp hp
      cases h
      exact ⟨_, t, rfl, rfl, Or.inl rfl⟩
    · split at h
      · rename_i hp
        obtain ⟨t, rfl⟩ := List.isPrefixOf_iff_prefix.mp hp
        cases h
        exact ⟨_, t, rfl, rfl, Or.inr rfl⟩
      · exact absurd h (by simp)
  · rintro ⟨l, t, rfl, rfl, rfl | rfl⟩
    · rfl
    · rfl

end Scanner

end TacFlow.Grammar
