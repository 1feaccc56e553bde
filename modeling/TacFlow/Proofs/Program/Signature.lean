import Mathlib.Data.List.Fold
import Mathlib.Data.List.MinMax
import Mathlib.Order.Nat
import TacFlow.Program.Hierarchy
import TacFlow.Proofs.Text.Characters

/-!
# Signatures that were written are read back

A signature is written with its class, a colon and its subsignature in angle brackets, and read by the
characters that each part may have. Reading inverts writing because no part has a character that ends
it: a type ends at the blank before the name, a name at the bracket before the parameters, and the
parameters are split at commas. The brackets of constructors are characters of a name, and the last
bracket of a signature is taken off its end.

Reading is limited to types with few enough dimensions, but what is written tells signatures apart
whatever their types are.
-/

namespace TacFlow

/-! ## Names -/

/-- The characters of identifiers. -/
def Text.isIdentifierChar (c : Char) : Bool :=
  Text.isAsciiWord c || c == '$'

/-- Identifiers over the letters, digits, `_` and `$` of ASCII. They do not start with a digit. -/
structure IsIdentifier (name : String) : Prop where
  nonempty : name.toList ≠ []
  chars {c : Char} : c ∈ name.toList → Text.isIdentifierChar c = true
  start {c : Char} : c ∈ name.toList.head? → Text.isAsciiDigit c = false

instance (name : String) : Decidable (IsIdentifier name) :=
  decidable_of_iff (name.toList ≠ [] ∧ name.toList.all Text.isIdentifierChar = true ∧
      name.toList.head?.all (fun c => !Text.isAsciiDigit c) = true)
    ⟨fun ⟨hne, hchars, hstart⟩ => ⟨hne, List.all_eq_true.mp hchars _,
        fun hc => by simpa [Option.mem_def.mp hc] using hstart⟩,
      fun h => ⟨h.nonempty, List.all_eq_true.mpr fun _ => h.chars,
        (Option.all_eq_true _ _).mpr fun c hc => by simp [h.start hc]⟩⟩

/-- Names of classes: identifiers with dots between them. -/
def IsClassName (name : String) : Prop :=
  ∃ parts : List String, parts ≠ [] ∧ (∀ part ∈ parts, IsIdentifier part) ∧
    name = ".".intercalate parts

/-- Names of methods: identifiers, and the names of constructors and class initializers. -/
def IsMethodName (name : String) : Prop :=
  IsIdentifier name ∨ name = "<init>" ∨ name = "<clinit>"

/-- Types that are made of primitive ones and of classes which are not named like them. -/
def Ty.IsNamed : Ty → Prop
  | primitive _ => True
  | named name => IsClassName name ∧ Primitive.ofName? name = none
  | array element => element.IsNamed

/-- Subsignatures that are made of such names and types. -/
structure Subsignature.IsNamed (s : Subsignature) : Prop where
  name : IsMethodName s.name
  types {t : Ty} : t ∈ s.types → t.IsNamed

/-! ## Characters -/

/-- The characters of written class names. -/
def Text.isDottedChar (c : Char) : Bool :=
  Text.isIdentifierChar c || c == '.'

/-- The characters of written types. -/
def Text.isTypeText (c : Char) : Bool :=
  Text.isDottedChar c || c == '[' || c == ']'

/-- The characters of written method names. -/
def Text.isNameText (c : Char) : Bool :=
  Text.isIdentifierChar c || c == '<' || c == '>'

theorem Text.toNat_lt_of_text {c : Char} (h : isTypeText c = true ∨ isNameText c = true) :
    c.toNat < 128 := by
  simp only [isTypeText, isNameText, isDottedChar, isIdentifierChar, Bool.or_eq_true,
    beq_iff_eq] at h
  rcases h with (((((h | rfl) | rfl) | rfl) | rfl) | (((h | rfl) | rfl) | rfl)) <;>
    first | exact toNat_lt_of_isAsciiWord h | decide

/-- What ends a part of a signature is no character of the part. -/
theorem Text.dottedChar_spec {c : Char} (h : isDottedChar c = true) :
    MethodId.isClassChar c = true ∧ isBlank c = false ∧ c ≠ ']' :=
  forall_ascii (fun c => isDottedChar c = true →
      MethodId.isClassChar c = true ∧ isBlank c = false ∧ c ≠ ']')
    (by decide +kernel) (toNat_lt_of_text (Or.inl (by simp [isTypeText, h]))) h

theorem Text.typeText_spec {c : Char} (h : isTypeText c = true) :
    Subsignature.isTypeChar c = true ∧ isBlank c = false ∧ c ≠ ',' ∧ c ≠ ')' :=
  forall_ascii (fun c => isTypeText c = true →
      Subsignature.isTypeChar c = true ∧ isBlank c = false ∧ c ≠ ',' ∧ c ≠ ')')
    (by decide +kernel) (toNat_lt_of_text (Or.inl h)) h

theorem Text.nameText_spec {c : Char} (h : isNameText c = true) :
    Subsignature.isNameChar c = true ∧ isBlank c = false :=
  forall_ascii (fun c => isNameText c = true →
      Subsignature.isNameChar c = true ∧ isBlank c = false)
    (by decide +kernel) (toNat_lt_of_text (Or.inr h)) h

section

variable {p : Char → Bool} {part rest : List Char} {c : Char}

/-- A part ends before the first character that it may not have. -/
theorem Text.takeWhile_part (hpart : ∀ d ∈ part, p d = true) (hc : p c = false) :
    (part ++ c :: rest).takeWhile p = part := by
  rw [List.takeWhile_append_of_pos hpart, List.takeWhile_cons_of_neg (by simp [hc]),
    List.append_nil]

theorem Text.dropWhile_part (hpart : ∀ d ∈ part, p d = true) (hc : p c = false) :
    (part ++ c :: rest).dropWhile p = c :: rest := by
  rw [List.dropWhile_append_of_pos hpart, List.dropWhile_cons_of_neg (by simp [hc])]

/-- Blanks are cut off before a part up to its start. -/
theorem Text.dropWhile_isBlank (hne : part ≠ []) (hpart : ∀ d ∈ part, isBlank d = false) :
    (part ++ rest).dropWhile isBlank = part ++ rest := by
  obtain ⟨d, ds, rfl⟩ := List.exists_cons_of_ne_nil hne
  rw [List.cons_append, List.dropWhile_cons_of_neg (by simp [hpart d (by simp)])]

end

/-- What ends in characters that are not blank has nothing to cut off. -/
theorem Text.trim_of_ends {cs : List Char} (hhead : ∀ c ∈ cs.head?, isBlank c = false)
    (hlast : ∀ c ∈ cs.getLast?, isBlank c = false) : trim cs = cs := by
  have hkeep : ∀ {l : List Char}, (∀ c ∈ l.head?, isBlank c = false) → l.dropWhile isBlank = l := by
    rintro (_ | ⟨c, l⟩) h
    · rfl
    · exact List.dropWhile_cons_of_neg (by simp [h c rfl])
  rw [trim, hkeep hhead, hkeep (by simpa using hlast), List.reverse_reverse]

/-! ## Written names and types -/

theorem Text.trim_cons_of_isBlank {c : Char} (hc : isBlank c = true) (cs : List Char) :
    trim (c :: cs) = trim cs := by
  rw [trim, trim, List.dropWhile_cons_of_pos hc]

theorem IsClassName.text {name : String} (h : IsClassName name) :
    name.toList ≠ [] ∧ ∀ c ∈ name.toList, Text.isDottedChar c = true := by
  obtain ⟨parts, hne, hparts, rfl⟩ := h
  rw [String.toList_intercalate]
  induction parts with
  | nil => exact absurd rfl hne
  | cons part rest ih =>
      have hpart := hparts part (by simp)
      have hchars : ∀ c ∈ part.toList, Text.isDottedChar c = true :=
        fun c hc => by simp [Text.isDottedChar, hpart.chars hc]
      cases rest with
      | nil => simpa using And.intro (by simpa using hpart.nonempty) hchars
      | cons next rest =>
          obtain ⟨_, hrest⟩ := ih (by simp) fun p hp => hparts p (List.mem_cons_of_mem part hp)
          rw [List.map_cons] at hrest ⊢
          rw [List.map_cons, List.intercalate_cons_cons]
          refine ⟨by simp [hpart.nonempty], fun c hc => ?_⟩
          rcases List.mem_append.mp hc with hc | hc
          · rcases List.mem_append.mp hc with hc | hc
            · exact hchars c hc
            · rw [show c = '.' by simpa using hc]
              rfl
          · exact hrest c hc

theorem IsMethodName.text {name : String} (h : IsMethodName name) :
    name.toList ≠ [] ∧ ∀ c ∈ name.toList, Text.isNameText c = true := by
  rcases h with h | rfl | rfl
  · exact ⟨h.nonempty, fun c hc => by simp [Text.isNameText, h.chars hc]⟩
  · exact ⟨by simp, List.all_eq_true.mp (by decide)⟩
  · exact ⟨by simp, List.all_eq_true.mp (by decide)⟩

theorem Primitive.ofName?_name (p : Primitive) : Primitive.ofName? p.name = some p := by
  cases p <;> decide

theorem Primitive.text (p : Primitive) :
    p.name.toList ≠ [] ∧ ∀ c ∈ p.name.toList, Text.isDottedChar c = true := by
  cases p <;> exact ⟨by decide, List.all_eq_true.mp (by decide)⟩

/-- A type without dimensions is read from its name. -/
theorem Ty.ofReversed_name {name : String} (hne : name.toList ≠ [])
    (hchars : ∀ c ∈ name.toList, Text.isDottedChar c = true) :
    ofReversed name.toList.reverse = ofName name := by
  have htrim : Text.trim name.toList = name.toList :=
    Text.trim_of_ends (fun c hc => (Text.dottedChar_spec (hchars c (List.mem_of_mem_head? hc))).2.1)
      fun c hc => (Text.dottedChar_spec (hchars c (List.mem_of_mem_getLast? hc))).2.1
  obtain ⟨c, rest, hrev⟩ := List.exists_cons_of_ne_nil (List.reverse_ne_nil_iff.mpr hne)
  have hc : c ∈ name.toList := List.mem_reverse.mp (hrev ▸ List.mem_cons_self)
  obtain ⟨_, hblank, hbracket⟩ := Text.dottedChar_spec (hchars c hc)
  have hname : (c :: rest).reverse = name.toList := by rw [← hrev, List.reverse_reverse]
  rw [hrev, ofReversed]
  · rw [hblank, hname, htrim, String.ofList_toList]
    rfl
  · exact fun _ heq => absurd heq hbracket

theorem Ty.isNamed_wrap (n : Nat) {t : Ty} (h : t.IsNamed) : (wrap n t).IsNamed := by
  induction n generalizing t with
  | zero => exact h
  | succ n ih => exact ih (t := .array t) h

theorem Ty.dimensions_wrap (n : Nat) (t : Ty) : (wrap n t).dimensions = t.dimensions + n := by
  induction n generalizing t with
  | zero => rfl
  | succ n ih => rw [wrap, ih, dimensions]; omega

/-- **A type is read from its written form, however many dimensions it has.** -/
theorem Ty.ofText_text {t : Ty} (h : t.IsNamed) : ofText t.text.toList = t := by
  unfold ofText
  induction t with
  | primitive p =>
      rw [Ty.text, ofReversed_name p.text.1 p.text.2, ofName, p.ofName?_name]
  | named name =>
      rw [Ty.text, ofReversed_name h.1.text.1 h.1.text.2, ofName, h.2]
  | array element ih =>
      have hrev : (element.text ++ "[]").toList.reverse = ']' :: '[' :: element.text.toList.reverse := by
        rw [String.toList_append, List.reverse_append]
        rfl
      rw [Ty.text, hrev, ofReversed, ih h]

theorem Ty.chars_text {t : Ty} (h : t.IsNamed) :
    t.text.toList ≠ [] ∧ ∀ c ∈ t.text.toList, Text.isTypeText c = true := by
  have hdotted : ∀ {cs : List Char}, (∀ c ∈ cs, Text.isDottedChar c = true) →
      ∀ c ∈ cs, Text.isTypeText c = true := fun h c hc => by simp [Text.isTypeText, h c hc]
  induction t with
  | primitive p => exact ⟨p.text.1, hdotted p.text.2⟩
  | named name => exact ⟨h.1.text.1, hdotted h.1.text.2⟩
  | array element ih =>
      obtain ⟨_, hchars⟩ := ih h
      rw [Ty.text, String.toList_append]
      refine ⟨by simp, fun c hc => ?_⟩
      rcases List.mem_append.mp hc with hc | hc
      · exact hchars c hc
      · exact List.all_eq_true.mp (by decide : "[]".toList.all Text.isTypeText = true) c hc

/-! ## Parameters -/

namespace Subsignature

theorem splitParams_of_not_mem {cs : List Char} (h : ',' ∉ cs) : splitParams cs = [cs] := by
  induction cs with
  | nil => rfl
  | cons c cs ih =>
      rw [List.mem_cons, not_or] at h
      rw [splitParams, ih h.2]
      exact if_neg (Ne.symm h.1)

theorem splitParams_append {cs : List Char} (h : ',' ∉ cs) (rest : List Char) :
    splitParams (cs ++ ',' :: rest) = cs :: splitParams rest := by
  have hne : ∀ l : List Char, splitParams l ≠ [] := by
    intro l
    cases l with
    | nil => simp [splitParams]
    | cons c l => rw [splitParams]; repeat' split <;> simp
  induction cs with
  | nil =>
      obtain ⟨first, others, hrest⟩ := List.exists_cons_of_ne_nil (hne rest)
      rw [List.nil_append, splitParams, hrest]
      exact if_pos rfl
  | cons c cs ih =>
      rw [List.mem_cons, not_or] at h
      rw [List.cons_append, splitParams, ih h.2]
      exact if_neg (Ne.symm h.1)

/-- What is joined by commas is split again. -/
theorem splitParams_intercalate {parts : List (List Char)} (hne : parts ≠ [])
    (h : ∀ part ∈ parts, ',' ∉ part) : splitParams ([','].intercalate parts) = parts := by
  induction parts with
  | nil => exact absurd rfl hne
  | cons part rest ih =>
      cases rest with
      | nil =>
          rw [List.intercalate_singleton]
          exact splitParams_of_not_mem (h part (by simp))
      | cons next rest =>
          rw [List.intercalate_cons_cons, List.append_assoc, List.singleton_append,
            splitParams_append (h part (by simp)),
            ih (by simp) fun p hp => h p (List.mem_cons_of_mem part hp)]

/-- The written parameters. -/
def paramsText (ts : List Ty) : List Char :=
  [','].intercalate (ts.map fun t => t.text.toList)

theorem readParams_paramsText {ts : List Ty} (h : ∀ t ∈ ts, t.IsNamed) :
    readParams (paramsText ts) = ts := by
  unfold readParams
  cases ts with
  | nil => rfl
  | cons t rest =>
      rw [paramsText, splitParams_intercalate (by simp)]
      · rw [List.filter_eq_self.mpr, List.map_map]
        · exact (List.map_congr_left fun u hu => Ty.ofText_text (h u hu)).trans (List.map_id _)
        · intro part hpart
          obtain ⟨u, hu, rfl⟩ := List.mem_map.mp hpart
          obtain ⟨hne, hchars⟩ := Ty.chars_text (h u hu)
          obtain ⟨c, cs, hcs⟩ := List.exists_cons_of_ne_nil hne
          have hc := Text.typeText_spec (hchars c (hcs ▸ List.mem_cons_self))
          simp [hcs, hc.2.1]
      · intro part hpart hcomma
        obtain ⟨u, hu, rfl⟩ := List.mem_map.mp hpart
        exact (Text.typeText_spec ((Ty.chars_text (h u hu)).2 _ hcomma)).2.2.1 rfl

theorem chars_paramsText {ts : List Ty} (h : ∀ t ∈ ts, t.IsNamed) :
    ∀ c ∈ paramsText ts, Text.isTypeText c = true ∨ c = ',' := by
  unfold paramsText
  induction ts with
  | nil => simp
  | cons t rest ih =>
      have ht : ∀ c ∈ t.text.toList, Text.isTypeText c = true := (Ty.chars_text (h t (by simp))).2
      cases rest with
      | nil => simpa using fun c hc => Or.inl (ht c hc)
      | cons next rest =>
          have hrest := ih fun u hu => h u (List.mem_cons_of_mem t hu)
          rw [List.map_cons] at hrest ⊢
          rw [List.map_cons, List.intercalate_cons_cons]
          intro c hc
          rcases List.mem_append.mp hc with hc | hc
          · rcases List.mem_append.mp hc with hc | hc
            · exact Or.inl (ht c hc)
            · exact Or.inr (by simpa using hc)
          · exact hrest c hc

/-! ## Subsignatures -/

theorem toList_text (s : Subsignature) :
    s.text.toList =
      s.result.text.toList ++ ' ' :: (s.name.toList ++ '(' :: (paramsText s.params ++ [')'])) := by
  simp [text, paramsText, String.toList_intercalate, Function.comp_def]

/-- **A subsignature is read from its written form, apart from the limit of nesting.** -/
theorem readTrimmed_text {s : Subsignature} (h : s.IsNamed) :
    readTrimmed s.text.toList = some s := by
  obtain ⟨hresult, hresultChars⟩ := Ty.chars_text (h.types List.mem_cons_self)
  obtain ⟨hname, hnameChars⟩ := h.name.text
  have hparams : ∀ t ∈ s.params, t.IsNamed := fun t ht => h.types (List.mem_cons_of_mem _ ht)
  -- each part is taken up to the character that ends it
  have htype : ∀ c ∈ s.result.text.toList, isTypeChar c = true :=
    fun c hc => (Text.typeText_spec (hresultChars c hc)).1
  have hword : ∀ c ∈ s.name.toList, isNameChar c = true :=
    fun c hc => (Text.nameText_spec (hnameChars c hc)).1
  have hstart : ∀ c ∈ s.name.toList, Text.isBlank c = false :=
    fun c hc => (Text.nameText_spec (hnameChars c hc)).2
  have hopen : ∀ c ∈ paramsText s.params, (c != ')') = true := by
    intro c hc
    rcases chars_paramsText hparams c hc with hc | rfl
    · exact bne_iff_ne.mpr (Text.typeText_spec hc).2.2.2
    · rfl
  rw [toList_text, readTrimmed]
  simp only [Text.takeWhile_part htype (by decide : isTypeChar ' ' = false),
    Text.dropWhile_part htype (by decide : isTypeChar ' ' = false),
    List.dropWhile_cons_of_pos (by decide : Text.isBlank ' ' = true),
    Text.dropWhile_isBlank hname hstart,
    Text.takeWhile_part hword (by decide : isNameChar '(' = false),
    Text.dropWhile_part hword (by decide : isNameChar '(' = false),
    List.dropWhile_cons_of_neg (by decide : ¬ Text.isBlank '(' = true),
    Text.takeWhile_part hopen (by decide : (')' != ')') = false),
    Text.dropWhile_part hopen (by decide : (')' != ')') = false)]
  rw [if_pos (by simp [hresult, hname]), Ty.ofText_text (h.types List.mem_cons_self),
    String.ofList_toList, readParams_paramsText hparams]

/-- The written form has no blanks around it and no line feed in it. -/
theorem chars_text {s : Subsignature} (h : s.IsNamed) :
    Text.trim s.text.toList = s.text.toList ∧ '\n' ∉ s.text.toList ∧ s.text.toList ≠ [] := by
  obtain ⟨hresult, hresultChars⟩ := Ty.chars_text (h.types List.mem_cons_self)
  obtain ⟨_, hnameChars⟩ := h.name.text
  have hparams : ∀ t ∈ s.params, t.IsNamed := fun t ht => h.types (List.mem_cons_of_mem _ ht)
  have hfeed : Text.isBlank '\n' = true := by decide
  rw [toList_text]
  refine ⟨Text.trim_of_ends ?_ ?_, ?_, by simp⟩
  · obtain ⟨c, cs, hcs⟩ := List.exists_cons_of_ne_nil hresult
    rw [hcs]
    intro d hd
    cases hd
    exact (Text.typeText_spec (hresultChars c (hcs ▸ List.mem_cons_self))).2.1
  · simp only [← List.append_assoc, ← List.cons_append, List.getLast?_concat]
    rintro d ⟨⟩
    decide
  · simp only [List.mem_append, List.mem_cons, not_or]
    refine ⟨fun hc => ?_, by decide, fun hc => ?_, by decide, fun hc => ?_, by simp⟩
    · exact absurd hfeed (by simp [(Text.typeText_spec (hresultChars _ hc)).2.1])
    · exact absurd hfeed (by simp [(Text.nameText_spec (hnameChars _ hc)).2])
    · rcases chars_paramsText hparams _ hc with hc | hc
      · exact absurd hfeed (by simp [(Text.typeText_spec hc).2.1])
      · exact absurd hc (by decide)

theorem read_text [Nesting] {s : Subsignature} (h : s.IsNamed) :
    read s.text.toList = if s.types.all Ty.isReadable then .ok s else .error .tooDeep := by
  rw [read, (chars_text h).1, readTrimmed_text h]

/-- **Different subsignatures are written differently, whatever their types are.** -/
theorem text_inj {s s' : Subsignature} (h : s.IsNamed) (h' : s'.IsNamed) (ht : s.text = s'.text) :
    s = s' := by
  have hread := readTrimmed_text h
  rw [ht, readTrimmed_text h'] at hread
  exact (Option.some.inj hread).symm

/-! ### Limits of nesting -/

/-- A subsignature is nested too deep for a limit just if a type in it is. -/
theorem lt_depth_iff {s : Subsignature} {n : Nat} : n < s.depth ↔ ∃ t ∈ s.types, n ≤ t.dimensions := by
  rw [depth, List.foldl_eq_foldr, Nat.lt_succ_iff]
  constructor
  · intro hn
    by_contra hnone
    have hlt : ∀ t ∈ s.types, t.dimensions < n := by simpa using hnone
    have hpos : 0 < n := Nat.zero_lt_of_lt (hlt s.result List.mem_cons_self)
    have hle : (s.types.map Ty.dimensions).foldr max 0 ≤ n - 1 :=
      List.max_le_of_forall_le _ _ (List.forall_mem_map.mpr fun t ht => Nat.le_sub_one_of_lt (hlt t ht))
    omega
  · rintro ⟨t, ht, hn⟩
    exact List.le_max_of_le' _ (List.mem_map_of_mem ht) hn

/-- A subsignature is written, unless a type in it is nested too deep. -/
theorem write?_eq_none [Nesting] {s : Subsignature} :
    s.write? = none ↔ ∃ t ∈ s.types, Nesting.writable ≤ t.dimensions := by
  simp [write?, isWritable, lt_depth_iff]

/-- What is written is the written form. -/
theorem text_of_write? [Nesting] {s : Subsignature} {S : String} (h : s.write? = some S) : S = s.text := by
  obtain ⟨_, rfl⟩ : _ ∧ s.text = S := by simpa [write?] using h
  rfl

end Subsignature

/-! ## Signatures -/

namespace MethodId

theorem toList_text (m : MethodId) :
    m.text.toList = '<' :: (m.owner.name.toList ++ ':' :: (' ' :: (m.subsig.text.toList ++ ['>']))) := by
  simp [text]

theorem splitTrimmed_text {m : MethodId} (howner : IsClassName m.owner.name)
    (hsubsig : m.subsig.IsNamed) :
    splitTrimmed m.text.toList = some (m.owner.name.toList, m.subsig.text.toList) := by
  obtain ⟨hne, hchars⟩ := howner.text
  obtain ⟨htrim, hfeed, hinner⟩ := Subsignature.chars_text hsubsig
  have hclass : ∀ c ∈ m.owner.name.toList, isClassChar c = true :=
    fun c hc => (Text.dottedChar_spec (hchars c hc)).1
  have hstart : ∀ c ∈ m.owner.name.toList, Text.isBlank c = false :=
    fun c hc => (Text.dottedChar_spec (hchars c hc)).2.1
  -- behind the colon there is the blank that was written, and it is cut off
  have hpart : innerPart (' ' :: m.subsig.text.toList) = some m.subsig.text.toList := by
    rw [innerPart, Text.trim_cons_of_isBlank (by decide), htrim]
    split
    · exact absurd ‹_› hinner
    · rw [if_neg (by simpa using hfeed)]
  rw [toList_text, splitTrimmed]
  simp only [Text.dropWhile_isBlank hne hstart,
    Text.takeWhile_part hclass (by decide : isClassChar ':' = false),
    Text.dropWhile_part hclass (by decide : isClassChar ':' = false),
    List.dropWhile_cons_of_neg (by decide : ¬ Text.isBlank ':' = true)]
  obtain ⟨c, cs, hcs⟩ := List.exists_cons_of_ne_nil hne
  rw [hcs]
  simp [hpart]

theorem read_text [Nesting] {m : MethodId} (howner : IsClassName m.owner.name) (hsubsig : m.subsig.IsNamed) :
    read m.text.toList =
      if m.subsig.types.all Ty.isReadable then .ok (m.owner.name, m.subsig) else .error .tooDeep := by
  have htrim : Text.trim m.text.toList = m.text.toList := by
    rw [toList_text]
    refine Text.trim_of_ends ?_ ?_
    · rintro c ⟨⟩
      decide
    · simp only [← List.append_assoc, ← List.cons_append, List.getLast?_concat]
      rintro c ⟨⟩
      decide
  rw [read, htrim, splitTrimmed_text howner hsubsig]
  simp only [Subsignature.read_text hsubsig, String.ofList_toList]
  split <;> rfl

/-- What is written is the written form. -/
theorem text_of_write? [Nesting] {m : MethodId} {S : String} (h : m.write? = some S) : S = m.text := by
  obtain ⟨_, rfl⟩ : _ ∧ m.text = S := by simpa [write?] using h
  rfl

end MethodId

end TacFlow
