import TacFlow.Proofs.Program.Erasure

/-!
# Replacing a statement

A statement in a text is the stretch between its labels and the next token behind its semicolon. A text
with other tokens in this stretch is read as the same classes with another action in the place of the
statement, as long as what precedes the stretch cannot tell the difference: the stretch begins with
the same character. If the actions differ in how their literals are written only, the program is the
same.
-/

namespace TacFlow

namespace Source

open Grammar (Token)

variable {a a' : Action}

/-! ## The place of a statement -/

/-- The classes of a program around what one statement says. -/
structure Slot where
  classesBefore : List Class
  cls : Class
  methodsBefore : List Method
  method : Method
  itemsBefore : List Item
  labels : List String
  pos : Nat
  itemsAfter : List Item
  methodsAfter : List Method
  classesAfter : List Class

namespace Slot

/-- The parts of the body. -/
def items (x : Slot) (a : Action) : List Item :=
  x.itemsBefore ++ .stmt ⟨x.labels, x.pos, a⟩ :: x.itemsAfter

/-- The methods of the class. -/
def methods (x : Slot) (a : Action) : List Method :=
  x.methodsBefore ++ { x.method with body := some (x.items a) } :: x.methodsAfter

/-- The classes in which the statement says something. -/
def fill (x : Slot) (a : Action) : List Class :=
  x.classesBefore ++ { x.cls with methods := x.methods a } :: x.classesAfter

variable {x : Slot}

/-- Every statement of a program has its place. -/
theorem exists_fill {classes : List Class} {c : Class} {m : Method} {items : List Item} {src : Stmt}
    (hc : c ∈ classes) (hm : m ∈ c.methods) (hitems : m.body = some items)
    (hsrc : src ∈ Resolve.statements items) :
    ∃ x : Slot, x.fill src.action = classes ∧ x.pos = src.pos := by
  have hitem : .stmt src ∈ items := by
    obtain ⟨i, hi, heq⟩ := List.mem_filterMap.mp hsrc
    cases i with
    | locals ty names pos => exact absurd heq (by simp)
    | stmt s =>
        cases heq
        exact hi
  obtain ⟨classesBefore, classesAfter, rfl⟩ := List.append_of_mem hc
  obtain ⟨methodsBefore, methodsAfter, hmethods⟩ := List.append_of_mem hm
  obtain ⟨itemsBefore, itemsAfter, rfl⟩ := List.append_of_mem hitem
  refine ⟨⟨classesBefore, c, methodsBefore, m, itemsBefore, src.labels, src.pos, itemsAfter, methodsAfter,
    classesAfter⟩, ?_, rfl⟩
  simp only [fill, methods, items]
  rw [← hitems, ← hmethods]

/-- The tokens of the program are the same around those of the statement, whatever it says. -/
theorem exists_tokens_fill (x : Slot) : ∃ before after, ∀ a,
    programTokens (x.fill a) = before ++ .mark x.pos :: (a.tokens ++ after) := by
  obtain ⟨before, after, hitems⟩ : ∃ before after, ∀ a, bodyTokens (some (x.items a)) =
      before ++ .mark x.pos :: (a.tokens ++ after) :=
    ⟨.punct '{' :: (x.itemsBefore.flatMap Item.tokens ++ labelTokens x.labels),
      x.itemsAfter.flatMap Item.tokens ++ [.punct '}'],
      fun a => by simp [items, bodyTokens, Item.tokens, Stmt.tokens]⟩
  obtain ⟨before, after, hmethods⟩ : ∃ before after, ∀ a, (x.methods a).flatMap Method.tokens =
      before ++ .mark x.pos :: (a.tokens ++ after) :=
    ⟨x.methodsBefore.flatMap Method.tokens ++ .mark x.method.pos ::
        (x.method.modifiers.map (.word ·.word) ++ .type x.method.result :: methodToken x.method.name ::
          .punct '(' :: (listed paramTokens x.method.params ++ .punct ')' :: before)),
      after ++ x.methodsAfter.flatMap Method.tokens,
      fun a => by simp [methods, Method.tokens, hitems]⟩
  exact ⟨x.classesBefore.flatMap Class.tokens ++ .mark x.cls.pos ::
      ((if x.cls.isAbstract then [.word "abstract"] else []) ++
        .word (kindWord x.cls.isInterface) :: .name x.cls.name ::
          (clauseTokens "extends" x.cls.extended ++ (clauseTokens "implements" x.cls.implemented ++
            .punct '{' :: before))),
    after ++ .punct '}' :: x.classesAfter.flatMap Class.tokens,
    fun a => by simp [fill, programTokens, Class.tokens, hmethods]⟩

theorem bare_fill (h : a'.mapLiterals Literal.bare = a.mapLiterals Literal.bare) :
    (x.fill a').map Class.bare = (x.fill a).map Class.bare := by
  simp [fill, methods, items, Class.bare, Method.bare, Item.bare, Stmt.bare, h]

theorem mem_literals_fill {n : Literal} (h : n ∈ (x.fill a').flatMap Class.literals) :
    n ∈ a'.literals ∨ n ∈ (x.fill a).flatMap Class.literals := by
  simp only [fill, methods, items, Class.literals, Item.literals, List.flatMap_append,
    List.flatMap_cons, List.mem_append, Option.getD_some] at h ⊢
  tauto

theorem subset_literals_fill (x : Slot) (a : Action) : a.literals ⊆ (x.fill a).flatMap Class.literals := by
  intro n hn
  simp only [fill, methods, items, Class.literals, Item.literals, List.flatMap_append,
    List.flatMap_cons, List.mem_append, Option.getD_some]
  tauto

theorem written_fill (h : ∀ c ∈ x.fill a, ∀ m ∈ c.methods, m.Written) (ha' : a'.Received) :
    ∀ c ∈ x.fill a', ∀ m ∈ c.methods, m.Written := by
  simp only [fill, methods, items, Method.Written, List.forall_mem_append, List.forall_mem_cons,
    Option.some.injEq, forall_eq', Item.Written] at h ⊢
  tauto

theorem received_fill (h : ∀ c ∈ x.fill a, ∀ m ∈ c.methods, m.Written) : a.Received := by
  simp only [fill, methods, items, Method.Written, List.forall_mem_append, List.forall_mem_cons,
    Option.some.injEq, forall_eq', Item.Written] at h
  tauto

end Slot

end Source

namespace Grammar

open Source Rule Scanner

variable {text before stmt after new s t u : List Char} {a a' : Action}

/-! ## Stretches of text -/

/-- A statement begins with a character of a word. -/
theorem head_of_action (h : Spells none a.tokens s t) : ∃ c u, s = c :: u ∧ isNameStart c = true := by
  have hlead : (∃ w, lead s = .keyword w) ∨ lead s = .name := by
    rcases leads_action h with hlead | ⟨p, _, hname⟩
    · exact Or.inl hlead
    · exact Or.inr hname.lead
  cases s with
  | nil => simp [lead] at hlead
  | cons c u =>
      refine ⟨c, u, rfl, ?_⟩
      by_contra hc
      rw [lead, if_neg hc] at hlead
      split at hlead <;> simp at hlead

/-- Texts that begin with the same character of a word look the same ahead. -/
theorem ahead_of_isNameStart {c : Char} (hc : isNameStart c = true) (u u' : List Char) :
    ahead (c :: u) = ahead (c :: u') := by
  have hdot : c ≠ '.' := by rintro rfl; exact absurd hc (by decide)
  have hbracket : c ≠ '[' := by rintro rfl; exact absurd hc (by decide)
  simp [ahead, hdot, hbracket]

/-- **A statement has a stretch of the text, and another one may be put there** that begins with the same
character. -/
theorem exists_stretch {x : Slot} (hparse : parse text = .ok (x.fill a)) :
    ∃ before stmt after, text = before ++ (stmt ++ after) ∧ before.length = x.pos ∧
      Reads action ⟨before.length, stmt ++ after⟩ a ⟨before.length + stmt.length, after⟩ ∧
      Spells none a.tokens (stmt ++ after) after ∧
      ∀ a' new, a'.Received → Spells none a'.tokens new after → new.head? = (stmt ++ after).head? →
        ∃ read, parse (before ++ new) = .ok read ∧
          read.map Class.unplaced = (x.fill a').map Class.unplaced := by
  have hwritten := written_of_parse hparse
  obtain ⟨g, s, rfl, hblank, hspells⟩ := spells_of_parse hparse
  obtain ⟨front, back, htokens⟩ := x.exists_tokens_fill
  rw [htokens] at hspells
  obtain ⟨_, hfront, t, ⟨rfl, hpos⟩, h⟩ := spells_append.mp hspells
  obtain ⟨after, haction, hback⟩ := spells_append.mp h
  have hreads : Parses action a t after := parses_action (Slot.received_fill hwritten) haction.weaken
  obtain ⟨c, u, rfl, hc⟩ := head_of_action haction.weaken
  have hsettled : ∀ v, Settled (c :: v) := fun v =>
    have hspec := isNameStart_spec hc
    settled_cons hspec.2.1 fun hq => absurd hq hspec.2.2.1
  -- the tokens in front stand whatever follows
  obtain ⟨z, rfl, -, -⟩ := hfront.exchange (by simp) rfl (hsettled u)
  have hexchange : ∀ v, Spells none front (z ++ c :: v) (c :: v) ∧ Settled (z ++ c :: v) := fun v => by
    obtain ⟨z', hz, hspells', hsettled'⟩ :=
      hfront.exchange (by simp) (ahead_of_isNameStart hc u v) (hsettled v)
    obtain rfl : z' = z := (List.append_cancel_right hz).symm
    exact ⟨hspells', hsettled'⟩
  obtain ⟨stmt, hstmt⟩ := haction.exists_append
  have hlength : (g ++ z).length = x.pos := by
    have hlength := hpos _ rfl
    simp only [List.length_append] at hlength ⊢
    omega
  refine ⟨g ++ z, stmt, after, by simp [hstmt], hlength, ?_, ?_, ?_⟩
  · rw [← hstmt]
    refine Parses.reads hreads ?_
    simp only [hstmt, List.length_append]
    omega
  · rw [← hstmt]
    exact haction.weaken
  · intro a' new hreceived hspells' hhead
    obtain ⟨v, rfl⟩ : ∃ v, new = c :: v := List.head?_eq_some_iff.mp (by rw [hhead, ← hstmt]; rfl)
    obtain ⟨hfront', hsettled'⟩ := hexchange v
    rw [List.append_assoc]
    refine exists_parse_of_spells (Slot.written_fill hwritten hreceived)
      (blank_congr hblank (by simp) hsettled') ?_
    rw [htokens]
    refine spells_append.mpr ⟨_, hfront', _, ⟨rfl, by simp⟩, ?_⟩
    exact spells_append.mpr ⟨_, hspells', hback.weaken⟩

end Grammar

end TacFlow
