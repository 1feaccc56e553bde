import TacFlow.Proofs.Grammar.Sentences

/-!
# Parsing statements

A production parses what the tokens of a tree spell. Where it makes a choice, the alternatives in front
of the right one refuse the text because of one of its first tokens: that is a keyword or a character,
or a name with a character behind it.
-/

namespace TacFlow.Grammar

open Source Rule Scanner

variable {s s' t u : List Char} {ts : List Token} {p : Char}

/-! ## Rows and lists -/

theorem Spells.length_lt {N : Option Nat} (h : Spells N ts s s') (hts : ∃ k ∈ ts, k.isVisible = true) :
    s'.length < s.length := by
  induction ts generalizing s with
  | nil => simp at hts
  | cons k ts ih =>
      obtain ⟨u, hk, hrest⟩ := h
      obtain ⟨k', hk', hvisible⟩ := hts
      rcases List.mem_cons.mp hk' with rfl | hmem
      · exact Nat.lt_of_le_of_lt hrest.length_le (hk.length_lt hvisible)
      · exact Nat.lt_of_lt_of_le (ih hrest ⟨k', hmem, hvisible⟩) hk.length_le

/-- The tokens of one value after the other spell a row. -/
theorem row_of_spells {α : Type} {tokens : α → List Token} {S : α → List Char → List Char → Prop}
    {as : List α} (h : Spells none (as.flatMap tokens) s s')
    (hS : ∀ a ∈ as, ∀ s s', Spells none (tokens a) s s' → S a s s') : Row S as s s' := by
  induction as generalizing s with
  | nil =>
      obtain rfl := h
      exact .nil _
  | cons a as ih =>
      obtain ⟨u, ha, has⟩ := spells_append.mp h
      exact .cons (hS a List.mem_cons_self s u ha)
        (ih has fun b hb => hS b (List.mem_cons_of_mem a hb))

theorem parses_many_of_spells {α : Type} {r : Rule α} {tokens : α → List Token} {as : List α}
    (h : Spells none (as.flatMap tokens) s s')
    (hr : ∀ a ∈ as, ∀ s s', Spells none (tokens a) s s' → Parses r a s s')
    (hvisible : ∀ a, ∃ k ∈ tokens a, k.isVisible = true) (hstop : s' = [] ∨ Refuses r s') :
    Parses (many r) as s s' :=
  parses_many (row_of_spells h fun a ha s s' hs => ⟨hr a ha s s' hs, hs.length_lt (hvisible a)⟩) hstop

theorem parses_many_nil {α : Type} {r : Rule α} (h : Refuses r s) : Parses (many r) [] s s :=
  parses_many (.nil s) (Or.inr h)

theorem lead_punct (h : Spells none (.punct p :: ts) s s') : lead s = .sign p := by
  obtain ⟨u, hp, _⟩ := h
  exact hp.leads rfl

/-- What is read up to a comma or another character is a part of a list. -/
theorem parses_separated {α : Type} {part : Rule α} {tokens : α → List Token} {as : List α}
    (hne : as ≠ []) (h : Spells none (listed tokens as) s s')
    (hpart : ∀ a ∈ as, ∀ s s', Spells none (tokens a) s s' → lead s' ≠ .name → Parses part a s s')
    (hstop : lead s' ≠ .name) (hcomma : lead s' ≠ .sign ',') : Parses (separated part) as s s' := by
  obtain ⟨a, as, rfl⟩ := List.exists_cons_of_ne_nil hne
  -- behind a part there is the next comma or the end of the list
  have hlead : ∀ {bs : List α} {u}, Spells none (bs.flatMap fun b => .punct ',' :: tokens b) u s' →
      lead u ≠ .name := by
    intro bs u hu
    cases bs with
    | nil => exact hu ▸ hstop
    | cons b bs => rw [lead_punct hu]; simp
  obtain ⟨u, ha, has⟩ := spells_append.mp h
  refine (hpart a List.mem_cons_self s u ha (hlead has)).bind (Parses.bind ?_ parses_pure)
  refine parses_many ?_ (Or.inr (refuses_punct rfl (by decide) hcomma).bind)
  clear ha h hne
  induction as generalizing u with
  | nil =>
      obtain rfl := has
      exact .nil _
  | cons b bs ih =>
      obtain ⟨v, hb, hbs⟩ := spells_append.mp has
      refine .cons ⟨?_, hb.length_lt ⟨_, List.mem_cons_self, rfl⟩⟩ (ih (fun a' ha' => ?_) v hbs)
      · obtain ⟨w, hcomma, hb⟩ := hb
        exact (hcomma.parses_punct rfl).bind
          (hpart b (List.mem_cons_of_mem a List.mem_cons_self) w v hb (hlead hbs))
      · refine hpart a' ?_
        rcases List.mem_cons.mp ha' with rfl | ha'
        · exact List.mem_cons_self
        · exact List.mem_cons_of_mem _ (List.mem_cons_of_mem _ ha')

/-- A list that may be empty, up to a closing parenthesis. -/
theorem parses_optional_list {α : Type} {part : Rule α} {r : Rule (List α)}
    (hr : r = separated part ∨ r = named (separated part)) {tokens : α → List Token}
    {as : List α} (h : Spells none (listed tokens as) s s')
    (hpart : ∀ a ∈ as, ∀ s s', Spells none (tokens a) s s' → lead s' ≠ .name → Parses part a s s')
    (hrefuses : Refuses part s') (hvisible : ∀ a, ∃ k ∈ tokens a, k.isVisible = true)
    (hclose : lead s' = .sign ')') : ∃ o, o.getD [] = as ∧ Parses (optional r) o s s' := by
  cases as with
  | nil =>
      obtain rfl := h
      refine ⟨none, rfl, parses_optional_none ?_⟩
      rcases hr with rfl | rfl
      · exact hrefuses.bind
      · exact hrefuses.bind.named
  | cons a as =>
      obtain ⟨k, hk, hk'⟩ := hvisible a
      have hlt := h.length_lt ⟨k, List.mem_append_left _ hk, hk'⟩
      refine ⟨some (a :: as), rfl, Parses.optional ?_ (List.ne_nil_of_length_pos (by omega))⟩
      have hparses : Parses (separated part) (a :: as) s s' :=
        parses_separated (by simp) h hpart (by simp [hclose]) (by simp [hclose])
      rcases hr with rfl | rfl
      · exact hparses
      · exact hparses.named

/-! ## Operands, calls and accesses -/

theorem leads_atom {N : Option Nat} {a : Atom} (h : Spells N a.tokens s s') :
    lead s = .name ∨ lead s = .digit ∨ lead s = .sign '-' := by
  cases a with
  | lit n => exact Or.inr ((spells_singleton.mp h).leads rfl)
  | name x => exact Or.inl ((spells_singleton.mp h).leads rfl)

theorem parses_atom {a : Atom} (h : Spells none a.tokens s s') : Parses atom a s s' := by
  cases a with
  | lit n =>
      have hn := spells_singleton.mp h
      refine Parses.named (Parses.orElse_left ?_)
      exact hn.parses_intLit.bind parses_pure
  | name x =>
      have hx := spells_singleton.mp h
      have hlead : lead s = .name := hx.leads rfl
      have hlit : Refuses intLit s := refuses_intLit (by simp [hlead]) (by simp [hlead])
      refine Parses.named (Parses.orElse_right ?_ hlit.bind)
      exact hx.parses_ident.bind parses_pure

theorem refuses_atom (h : lead s = .sign p) (hp : p ≠ '-') : Refuses atom s :=
  ((refuses_intLit (by simp [h]) (by simp [h, hp])).bind.orElse
    (refuses_ident (by simp [h])).bind).named

theorem parses_methodName {x : String} (h : Next none (methodToken x) s s') :
    Parses methodName x s s' := by
  unfold methodToken at h
  split at h
  · exact (Parses.orElse_left h.parses_initName).named
  · have hlead : lead s = .name := h.leads rfl
    exact (Parses.orElse_right h.parses_ident (refuses_initName (by simp [hlead]))).named

/-- A punctuation character whose blank space is read by a rule of its own. -/
theorem Next.parses_literal {α : Type} {P : α → Prop} {r : Rule α} {w : String}
    (h : Next none (.punct p) s s') (hw : w.toList = [p]) (hr : ParsesTo r P s' t) :
    ParsesTo (literal w >>= fun _ => blank >>= fun _ => r) P s t := by
  intro c hc
  obtain ⟨_, c₂, hpunct, _, hrest, hpos⟩ := h.parses_punct hw c hc
  obtain ⟨_, c₁, hliteral, hblank⟩ := reads_bind.mp (reads_named.mp hpunct)
  obtain ⟨a, d, ha, hP, hd, hpos'⟩ := hr _ hrest
  exact ⟨a, d, reads_bind.mpr ⟨_, _, hliteral, reads_bind.mpr ⟨_, _, hblank, ha⟩⟩, hP, hd,
    hpos'.trans hpos⟩

theorem parses_callee {f : Callee} (h : Spells none f.tokens s s') : Parses callee f s s' := by
  obtain ⟨s₁, hopen, s₂, howner, s₃, hcolon, s₄, hresult, s₅, hname, s₆, hparen, h⟩ := h
  obtain ⟨s₇, hparams, s₈, hparen', s₉, hclose, rfl⟩ := spells_append.mp h
  have hlead : lead s₇ = .sign ')' := hparen'.leads rfl
  obtain ⟨o, ho, hparams⟩ := parses_optional_list (r := typeList) (Or.inr rfl) hparams
    (fun t _ s s' ht _ => (spells_singleton.mp ht).parses_type) (refuses_type (by simp [hlead]))
    (fun t => ⟨_, List.mem_singleton_self _, rfl⟩) hlead
  refine Parses.named (hopen.parses_literal rfl (howner.parses_name ?_))
  refine (hcolon.parses_punct rfl).bind (hresult.parses_type.bind ?_)
  refine (parses_methodName hname).bind ((hparen.parses_punct rfl).bind (hparams.bind ?_))
  refine (hparen'.parses_punct rfl).bind (hclose.parses_literal rfl ?_)
  rw [ho]
  exact parses_pure

theorem parses_argList {args : List Atom} (h : Spells none (argTokens args) s s') :
    Parses argList args s s' := by
  obtain ⟨s₁, hopen, h⟩ := h
  obtain ⟨s₂, hargs, s₃, hclose, rfl⟩ := spells_append.mp h
  have hlead : lead s₂ = .sign ')' := hclose.leads rfl
  obtain ⟨o, ho, hargs⟩ := parses_optional_list (Or.inl rfl) hargs
    (fun a _ s s' ha _ => parses_atom ha) (refuses_atom hlead (by decide))
    (fun a => by cases a <;> exact ⟨_, List.mem_singleton_self _, rfl⟩) hlead
  refine ((hopen.parses_punct rfl).bind (hargs.bind ((hclose.parses_punct rfl).bind ?_))).named
  rw [ho]
  exact parses_pure

/-- A call is behind its keyword. -/
theorem lead_call {c : Source.Call} (h : Spells none (c.tokens ++ ts) s s') :
    lead s = .keyword (callWord c.kind) := by
  obtain ⟨u, hword, _⟩ := h
  exact hword.leads rfl

theorem refuses_call (h : ∀ k, lead s ≠ .keyword (callWord k)) : Refuses call s := by
  have hkind : Refuses instanceKind s :=
    ((refuses_word (by decide) (h .special)).bind.orElse
      ((refuses_word (by decide) (h .virtual)).bind.orElse
        (refuses_word (by decide) (h .interface)).bind)).named
  exact ((refuses_word (by decide) (h .static)).bind.named.orElse hkind.bind.named).named

theorem parses_instanceKind {k : CallKind} (hk : k ≠ .static) (h : Next none (.word (callWord k)) s s') :
    Parses instanceKind k s s' := by
  have hlead : lead s = .keyword (callWord k) := h.leads rfl
  have hword := h.parses_word
  cases k with
  | static => exact absurd rfl hk
  | special =>
      refine Parses.named (Parses.orElse_left ?_)
      exact hword.bind parses_pure
  | virtual =>
      refine Parses.named (Parses.orElse_right (Parses.orElse_left ?_) ?_)
      · exact hword.bind parses_pure
      · exact (refuses_word (by decide) (by simp [hlead, callWord])).bind
  | interface =>
      refine Parses.named (Parses.orElse_right (Parses.orElse_right ?_ ?_) ?_)
      · exact hword.bind parses_pure
      · exact (refuses_word (by decide) (by simp [hlead, callWord])).bind
      · exact (refuses_word (by decide) (by simp [hlead, callWord])).bind

theorem parses_call {c : Source.Call} (hc : c.Received) (h : Spells none c.tokens s s') :
    Parses call c s s' := by
  obtain ⟨kind, receiver, target, args⟩ := c
  obtain ⟨s₁, hword, h⟩ := h
  have hlead : lead s = .keyword (callWord kind) := hword.leads rfl
  obtain ⟨s₂, hreceiver, h⟩ := spells_append.mp h
  obtain ⟨s₃, htarget, hargs⟩ := spells_append.mp h
  by_cases hk : kind = .static
  · subst hk
    cases receiver with
    | some x => exact absurd hc (by simp [Call.Received])
    | none =>
        obtain rfl := hreceiver
        refine Parses.named (Parses.orElse_left (Parses.named ?_))
        refine hword.parses_word.bind ((parses_callee htarget).bind ?_)
        exact (parses_argList hargs).bind parses_pure
  · cases receiver with
    | none => exact absurd hc (by simp [Call.Received, hk])
    | some x =>
        obtain ⟨s₄, hx, _, hdot, rfl⟩ := hreceiver
        have hlead' : lead s ≠ .keyword "invokestatic" := by
          rw [hlead]
          cases kind <;> simp_all [callWord]
        have hstatic : Refuses staticCall s := (refuses_word (by decide) hlead').bind.named
        refine Parses.named (Parses.orElse_right (Parses.named ?_) hstatic)
        refine (parses_instanceKind hk hword).bind (hx.parses_ident.bind ((hdot.parses_punct rfl).bind ?_))
        refine (parses_callee htarget).bind ((parses_argList hargs).bind ?_)
        exact parses_pure

/-- A name with a character behind it. -/
def NameThen (p : Char) (s : List Char) : Prop :=
  ∃ x t, Next none (.ident x) s t ∧ lead t = .sign p

theorem NameThen.lead (h : NameThen p s) : lead s = .name := by
  obtain ⟨x, t, hx, _⟩ := h
  exact hx.leads rfl

/-- A rule that reads a name and then a character refuses a name with another character behind it. -/
theorem NameThen.refuses {α : Type} {f : String → Unit → Rule α} {q : Char} {w : String}
    (h : NameThen p s) (hw : w.toList = [q]) (hq : q ∈ punctuation) (hne : p ≠ q) :
    Refuses (ident >>= fun x => punct w >>= f x) s := by
  obtain ⟨x, t, hx, ht⟩ := h
  exact hx.parses_ident.bind_refuses (refuses_punct hw hq (by simp [ht, hne])).bind

theorem nameThen_of_spells {x : String} (h : Spells none (.ident x :: .punct p :: ts) s s') :
    NameThen p s := by
  obtain ⟨t, hx, h⟩ := h
  exact ⟨x, t, hx, lead_punct h⟩

theorem parses_element {base : String} {index : Atom}
    (h : Spells none (Access.element base index).tokens s s') :
    Parses elementRef (.element base index) s s' := by
  obtain ⟨s₁, hbase, s₂, hopen, h⟩ := h
  obtain ⟨s₃, hindex, s₄, hclose, rfl⟩ := spells_append.mp h
  refine Parses.named (hbase.parses_ident.bind ((hopen.parses_punct rfl).bind ?_))
  exact (parses_atom hindex).bind ((hclose.parses_punct rfl).bind parses_pure)

theorem parses_field {base name : String} (h : Spells none (Access.field base name).tokens s s') :
    Parses fieldRef (.field base name) s s' := by
  obtain ⟨s₁, hbase, s₂, hdot, s₃, hname, rfl⟩ := h
  refine Parses.named (hbase.parses_ident.bind ((hdot.parses_punct rfl).bind ?_))
  exact hname.parses_ident.bind parses_pure

/-! ## Both sides of an assignment -/

theorem refuses_allocation (h : lead s ≠ .keyword "new") : Refuses allocation s :=
  (refuses_word (by decide) h).bind.named

theorem refuses_castValue (h : lead s ≠ .sign '(') : Refuses castValue s :=
  (refuses_punct rfl (by decide) h).bind.named

/-- Behind its left operand a binary operation has an operator. -/
theorem refuses_binaryValue {a : Atom} (h : Spells none a.tokens s t) (ht : lead t = .sign p)
    (hp : p ∈ [';', '[', '.']) : Refuses binaryValue s :=
  ((parses_atom h).bind_refuses (refuses_binOp ht hp).bind).named

theorem parses_value {v : Source.Value} (h : Spells none v.tokens s s') (hs' : lead s' = .sign ';') :
    Parses value v s s' := by
  cases v with
  | alloc t =>
      obtain ⟨s₁, hword, s₂, ht, rfl⟩ := h
      refine Parses.named (Parses.orElse_left (Parses.named ?_))
      exact hword.parses_word.bind (ht.parses_type.bind parses_pure)
  | cast t a =>
      have hlead := lead_punct h
      obtain ⟨s₁, hopen, s₂, ht, s₃, hclose, ha⟩ := h
      refine Parses.named (Parses.orElse_right (Parses.orElse_left (Parses.named ?_))
        (refuses_allocation (by simp [hlead])))
      refine (hopen.parses_punct rfl).bind (ht.parses_type.bind ((hclose.parses_punct rfl).bind ?_))
      exact (parses_atom ha).bind parses_pure
  | binary left op right =>
      obtain ⟨s₁, hleft, s₂, hop, hright⟩ := spells_append.mp h
      have hlead := leads_atom hleft
      refine Parses.named (Parses.orElse_right (Parses.orElse_right (Parses.orElse_left (Parses.named ?_))
        (refuses_castValue ?_)) (refuses_allocation ?_))
      · refine (parses_atom hleft).bind (hop.parses_binOp.bind ?_)
        exact (parses_atom hright).bind parses_pure
      · rcases hlead with hlead | hlead | hlead <;> simp [hlead]
      · rcases hlead with hlead | hlead | hlead <;> simp [hlead]
  | access a =>
      cases a with
      | element base index =>
          have hname := nameThen_of_spells h
          obtain ⟨s₁, hbase, hbracket⟩ := id h
          refine Parses.named (Parses.orElse_right (Parses.orElse_right (Parses.orElse_right
            (Parses.orElse_left ?_) ?_) ?_) ?_)
          · exact (parses_element h).bind parses_pure
          · exact refuses_binaryValue (a := .name base) (spells_singleton.mpr hbase)
              (lead_punct hbracket) (by decide)
          · exact refuses_castValue (by simp [hname.lead])
          · exact refuses_allocation (by simp [hname.lead])
      | field base name =>
          have hname := nameThen_of_spells h
          obtain ⟨s₁, hbase, hdot⟩ := id h
          refine Parses.named (Parses.orElse_right (Parses.orElse_right (Parses.orElse_right
            (Parses.orElse_right (Parses.orElse_left ?_) ?_) ?_) ?_) ?_)
          · exact (parses_field h).bind parses_pure
          · exact (hname.refuses rfl (by decide) (by decide)).named.bind
          · exact refuses_binaryValue (a := .name base) (spells_singleton.mpr hbase)
              (lead_punct hdot) (by decide)
          · exact refuses_castValue (by simp [hname.lead])
          · exact refuses_allocation (by simp [hname.lead])
  | atom a =>
      have hlead := leads_atom h
      have hrefs : Refuses elementRef s ∧ Refuses fieldRef s := by
        cases a with
        | lit n =>
            have hint : lead s ≠ .name := by
              rcases (spells_singleton.mp h).leads rfl with hint | hint <;> simp [hint]
            exact ⟨(refuses_ident hint).bind.named, (refuses_ident hint).bind.named⟩
        | name x =>
            have hname : NameThen ';' s := ⟨x, s', spells_singleton.mp h, hs'⟩
            exact ⟨(hname.refuses rfl (by decide) (by decide)).named,
              (hname.refuses rfl (by decide) (by decide)).named⟩
      refine Parses.named (Parses.orElse_right (Parses.orElse_right (Parses.orElse_right
        (Parses.orElse_right (Parses.orElse_right ?_ hrefs.2.bind) hrefs.1.bind) ?_) ?_) ?_)
      · exact (parses_atom h).bind parses_pure
      · exact refuses_binaryValue h hs' (by decide)
      · refine refuses_castValue ?_
        rcases hlead with hlead | hlead | hlead <;> simp [hlead]
      · refine refuses_allocation ?_
        rcases hlead with hlead | hlead | hlead <;> simp [hlead]

theorem parses_target {t : Target} (h : Spells none t.tokens s s') (hs' : lead s' = .sign '=') :
    Parses target t s s' := by
  cases t with
  | name x =>
      have hname : NameThen '=' s := ⟨x, s', spells_singleton.mp h, hs'⟩
      refine Parses.named (Parses.orElse_right (Parses.orElse_right ?_ ?_) ?_)
      · exact (spells_singleton.mp h).parses_ident.bind parses_pure
      · exact (hname.refuses rfl (by decide) (by decide)).named.bind
      · exact (hname.refuses rfl (by decide) (by decide)).named.bind
  | access a =>
      cases a with
      | element base index =>
          refine Parses.named (Parses.orElse_left ?_)
          exact (parses_element h).bind parses_pure
      | field base name =>
          have hname := nameThen_of_spells h
          refine Parses.named (Parses.orElse_right (Parses.orElse_left ?_) ?_)
          · exact (parses_field h).bind parses_pure
          · exact (hname.refuses rfl (by decide) (by decide)).named.bind

/-! ## Statements -/

theorem parses_jump {x : String} (h : Spells none (jumpTokens x) s s') : Parses jump x s s' := by
  obtain ⟨s₁, hword, s₂, hx, s₃, hsemi, rfl⟩ := h
  refine hword.parses_word.bind (hx.parses_ident.bind ((hsemi.parses_punct rfl).bind ?_))
  exact parses_pure

theorem refuses_ifStmt (h : lead s ≠ .keyword "if") : Refuses ifStmt s :=
  (refuses_word (by decide) h).bind.named

theorem refuses_gotoStmt (h : lead s ≠ .keyword "goto") : Refuses gotoStmt s :=
  (refuses_word (by decide) h).bind.bind.named

theorem refuses_switchStmt (h : lead s ≠ .keyword "switch") : Refuses switchStmt s :=
  (refuses_word (by decide) h).bind.named

theorem refuses_returnStmt (h : lead s ≠ .keyword "return") : Refuses returnStmt s :=
  (refuses_word (by decide) h).bind.named

theorem refuses_nopStmt (h : lead s ≠ .keyword "nop") : Refuses nopStmt s :=
  (refuses_word (by decide) h).bind.named

theorem refuses_resultAssign (h : lead s ≠ .name) : Refuses resultAssign s :=
  (refuses_ident h).bind.named

/-- A call without a result is refused where none is ahead. -/
theorem refuses_invokeStmt (h : Refuses resultAssign s) (hcall : ∀ k, lead s ≠ .keyword (callWord k)) :
    Refuses invokeStmt s :=
  ((parses_optional_none h).bind_refuses (refuses_call hcall).bind).named

/-- No right-hand side begins like a call. -/
theorem lead_value {v : Source.Value} (h : Spells none v.tokens s s') (k : CallKind) :
    lead s ≠ .keyword (callWord k) := by
  have hatom : ∀ {a : Atom} {u}, Spells none a.tokens s u → lead s ≠ .keyword (callWord k) := by
    intro a u ha
    rcases leads_atom ha with hlead | hlead | hlead <;> simp [hlead]
  cases v with
  | atom a => exact hatom h
  | alloc t =>
      obtain ⟨u, hword, _⟩ := h
      have hlead : lead s = .keyword "new" := hword.leads rfl
      cases k <;> simp [hlead, callWord]
  | cast t a => simp [lead_punct h]
  | binary left op right =>
      obtain ⟨u, hleft, _⟩ := spells_append.mp h
      exact hatom hleft
  | access a =>
      cases a with
      | element base index => simp [(nameThen_of_spells h).lead]
      | field base name => simp [(nameThen_of_spells h).lead]

theorem parses_branch {left right : Atom} {op : BinOp} {label : String}
    (h : Spells none (Action.branch left op right label).tokens s s') :
    Parses ifStmt (.branch left op right label) s s' := by
  obtain ⟨s₁, hword, s₂, hopen, h⟩ := h
  obtain ⟨s₃, hleft, s₄, hop, h⟩ := spells_append.mp h
  obtain ⟨s₅, hright, s₆, hclose, hjump⟩ := spells_append.mp h
  refine Parses.named (hword.parses_word.bind ((hopen.parses_punct rfl).bind ?_))
  refine (parses_atom hleft).bind (hop.parses_condOp.bind ((parses_atom hright).bind ?_))
  exact (hclose.parses_punct rfl).bind ((parses_jump hjump).bind parses_pure)

theorem parses_caseClause {k : Literal × String} (h : Spells none (caseTokens k) s s') :
    Parses caseClause k s s' := by
  obtain ⟨s₁, hword, s₂, hn, s₃, hcolon, hjump⟩ := h
  refine Parses.named (hword.parses_word.bind (hn.parses_intLit.bind ?_))
  exact (hcolon.parses_punct rfl).bind ((parses_jump hjump).bind parses_pure)

theorem parses_switch {x : String} {cases : List (Literal × String)} {default : String}
    (h : Spells none (Action.switch x cases default).tokens s s') :
    Parses switchStmt (.switch x cases default) s s' := by
  obtain ⟨s₁, hword, s₂, hopen, s₃, hx, s₄, hclose, s₅, hbrace, h⟩ := h
  obtain ⟨s₆, hcases, s₇, hdefault, s₈, hcolon, h⟩ := spells_append.mp h
  obtain ⟨s₉, hjump, s₁₀, hbrace', rfl⟩ := spells_append.mp h
  have hlead : lead s₆ = .keyword "default" := hdefault.leads rfl
  have hmany : Parses (many caseClause) cases s₅ s₆ :=
    parses_many_of_spells hcases (fun k _ _ _ => parses_caseClause)
      (fun k => ⟨_, List.mem_cons_self, rfl⟩)
      (Or.inr (refuses_word (by decide) (by simp [hlead])).bind.named)
  refine Parses.named (hword.parses_word.bind ((hopen.parses_punct rfl).bind (hx.parses_ident.bind ?_)))
  refine (hclose.parses_punct rfl).bind ((hbrace.parses_punct rfl).bind (hmany.bind ?_))
  refine Parses.bind ?_ ((hbrace'.parses_punct rfl).bind parses_pure)
  exact Parses.named (hdefault.parses_word.bind ((hcolon.parses_punct rfl).bind (parses_jump hjump)))

theorem parses_ret {x : Option String} (h : Spells none (Action.ret x).tokens s s') :
    Parses returnStmt (.ret x) s s' := by
  obtain ⟨s₁, hword, h⟩ := h
  obtain ⟨s₂, hx, s₃, hsemi, rfl⟩ := spells_append.mp h
  have hlead : lead s₂ = .sign ';' := hsemi.leads rfl
  refine Parses.named (hword.parses_word.bind (Parses.bind ?_ ((hsemi.parses_punct rfl).bind parses_pure)))
  cases x with
  | none =>
      obtain rfl := hx
      exact parses_optional_none (refuses_ident (by simp [hlead]))
  | some x =>
      have hx := spells_singleton.mp hx
      have hlt := hx.length_lt rfl
      exact hx.parses_ident.optional (List.ne_nil_of_length_pos (by omega))

theorem parses_resultAssign {x : String} (hx : Next none (.ident x) s t)
    (heq : Next none (.punct '=') t s') : Parses (optional resultAssign) (some x) s s' := by
  have hlt := hx.length_lt rfl
  refine Parses.optional (Parses.named ?_) (List.ne_nil_of_length_pos (by omega))
  exact hx.parses_ident.bind ((heq.parses_punct rfl).bind parses_pure)

theorem parses_invoke {result : Option String} {c : Source.Call} (hc : c.Received)
    (h : Spells none (Action.invoke result c).tokens s s') :
    Parses invokeStmt (.invoke result c) s s' := by
  obtain ⟨s₁, hresult, h⟩ := spells_append.mp h
  have hlead := lead_call h
  obtain ⟨s₂, hcall, s₃, hsemi, rfl⟩ := spells_append.mp h
  refine Parses.named (Parses.bind ?_ ((parses_call hc hcall).bind
    ((hsemi.parses_punct rfl).bind parses_pure)))
  cases result with
  | none =>
      obtain rfl := hresult
      exact parses_optional_none (refuses_resultAssign (by simp [hlead]))
  | some x =>
      obtain ⟨s₄, hx, _, heq, rfl⟩ := hresult
      exact parses_resultAssign hx heq

/-- The tokens of an assignment begin with a name and a character. -/
theorem nameThen_assign {target : Target} {v : Source.Value}
    (h : Spells none (Action.assign target v).tokens s s') :
    ∃ p ∈ ['=', '[', '.'], NameThen p s ∧ (p = '=' → ∃ x, target = .name x) := by
  cases target with
  | name x => exact ⟨'=', by decide, nameThen_of_spells h, fun _ => ⟨x, rfl⟩⟩
  | access a =>
      cases a with
      | element base index =>
          exact ⟨'[', by decide, nameThen_of_spells h, fun hq => absurd hq (by decide)⟩
      | field base name =>
          exact ⟨'.', by decide, nameThen_of_spells h, fun hq => absurd hq (by decide)⟩

theorem parses_assign {target : Target} {v : Source.Value}
    (h : Spells none (Action.assign target v).tokens s s') :
    Parses assignStmt (.assign target v) s s' ∧ Refuses invokeStmt s := by
  obtain ⟨p, _, hname, hp⟩ := nameThen_assign h
  obtain ⟨s₁, htarget, s₂, heq, h⟩ := spells_append.mp h
  obtain ⟨s₃, hv, s₄, hsemi, rfl⟩ := spells_append.mp h
  refine ⟨Parses.named ((parses_target htarget (heq.leads rfl)).bind ?_), ?_⟩
  · refine (heq.parses_punct rfl).bind ((parses_value hv (hsemi.leads rfl)).bind ?_)
    exact (hsemi.parses_punct rfl).bind parses_pure
  · by_cases hq : p = '='
    · -- the variable and the equals sign are read as those of a result, but no call follows
      obtain ⟨x, rfl⟩ := hp hq
      have hresult := parses_resultAssign (spells_singleton.mp htarget) heq
      exact (hresult.bind_refuses (refuses_call (lead_value hv)).bind).named
    · exact refuses_invokeStmt (hname.refuses rfl (by decide) hq).named (by simp [hname.lead])

/-- **What a statement says is parsed from its tokens.** -/
theorem parses_action {a : Action} (ha : a.Received) (h : Spells none a.tokens s s') :
    Parses action a s s' := by
  cases a with
  | branch left op right label =>
      refine Parses.named (Parses.orElse_left ?_)
      exact parses_branch h
  | goto label =>
      have hlead : lead s = .keyword "goto" := h.choose_spec.1.leads rfl
      refine Parses.named (Parses.orElse_right (Parses.orElse_left (Parses.named ?_)) ?_)
      · exact (parses_jump h).bind parses_pure
      · exact refuses_ifStmt (by simp [hlead])
  | switch x cases default =>
      have hlead : lead s = .keyword "switch" := h.choose_spec.1.leads rfl
      refine Parses.named (Parses.orElse_right (Parses.orElse_right (Parses.orElse_left ?_) ?_) ?_)
      · exact parses_switch h
      · exact refuses_gotoStmt (by simp [hlead])
      · exact refuses_ifStmt (by simp [hlead])
  | ret x =>
      have hlead : lead s = .keyword "return" := h.choose_spec.1.leads rfl
      refine Parses.named (Parses.orElse_right (Parses.orElse_right (Parses.orElse_right
        (Parses.orElse_left ?_) ?_) ?_) ?_)
      · exact parses_ret h
      · exact refuses_switchStmt (by simp [hlead])
      · exact refuses_gotoStmt (by simp [hlead])
      · exact refuses_ifStmt (by simp [hlead])
  | nop =>
      have hlead : lead s = .keyword "nop" := h.choose_spec.1.leads rfl
      obtain ⟨s₁, hword, s₂, hsemi, rfl⟩ := h
      refine Parses.named (Parses.orElse_right (Parses.orElse_right (Parses.orElse_right
        (Parses.orElse_right (Parses.orElse_left (Parses.named ?_)) ?_) ?_) ?_) ?_)
      · exact hword.parses_word.bind ((hsemi.parses_punct rfl).bind parses_pure)
      · exact refuses_returnStmt (by simp [hlead])
      · exact refuses_switchStmt (by simp [hlead])
      · exact refuses_gotoStmt (by simp [hlead])
      · exact refuses_ifStmt (by simp [hlead])
  | invoke result c =>
      have hlead : lead s = .name ∨ lead s = .keyword (callWord c.kind) := by
        cases result with
        | none => exact Or.inr (lead_call h)
        | some x => exact Or.inl (nameThen_of_spells h).lead
      have hne : ∀ w ∈ ["if", "goto", "switch", "return", "nop"], lead s ≠ .keyword w := by
        rcases hlead with hlead | hlead
        · simp [hlead]
        · rw [hlead]
          cases c.kind <;> decide
      refine Parses.named (Parses.orElse_right (Parses.orElse_right (Parses.orElse_right
        (Parses.orElse_right (Parses.orElse_right (Parses.orElse_left ?_) ?_) ?_) ?_) ?_) ?_)
      · exact parses_invoke ha h
      · exact refuses_nopStmt (hne _ (by decide))
      · exact refuses_returnStmt (hne _ (by decide))
      · exact refuses_switchStmt (hne _ (by decide))
      · exact refuses_gotoStmt (hne _ (by decide))
      · exact refuses_ifStmt (hne _ (by decide))
  | assign target v =>
      obtain ⟨_, _, hname, _⟩ := nameThen_assign h
      have hlead := hname.lead
      obtain ⟨hparses, hrefuses⟩ := parses_assign h
      refine Parses.named (Parses.orElse_right (Parses.orElse_right (Parses.orElse_right
        (Parses.orElse_right (Parses.orElse_right (Parses.orElse_right hparses hrefuses) ?_) ?_) ?_) ?_) ?_)
      · exact refuses_nopStmt (by simp [hlead])
      · exact refuses_returnStmt (by simp [hlead])
      · exact refuses_switchStmt (by simp [hlead])
      · exact refuses_gotoStmt (by simp [hlead])
      · exact refuses_ifStmt (by simp [hlead])

/-- A statement without labels does not begin like a label or a declaration: in front of it there is a
keyword, or a name with a character behind it. -/
theorem leads_action {a : Action} (h : Spells none a.tokens s s') :
    (∃ w, lead s = .keyword w) ∨ ∃ p ∈ ['=', '[', '.'], NameThen p s := by
  cases a with
  | branch left op right label => exact Or.inl ⟨_, h.choose_spec.1.leads rfl⟩
  | goto label => exact Or.inl ⟨_, h.choose_spec.1.leads rfl⟩
  | switch x cases default => exact Or.inl ⟨_, h.choose_spec.1.leads rfl⟩
  | ret x => exact Or.inl ⟨_, h.choose_spec.1.leads rfl⟩
  | nop => exact Or.inl ⟨_, h.choose_spec.1.leads rfl⟩
  | invoke result c =>
      cases result with
      | none => exact Or.inl ⟨_, lead_call h⟩
      | some x => exact Or.inr ⟨'=', by decide, nameThen_of_spells h⟩
  | assign target v =>
      obtain ⟨p, hp, hname, _⟩ := nameThen_assign h
      exact Or.inr ⟨p, hp, hname⟩

theorem refuses_label {a : Action} (h : Spells none a.tokens s s') : Refuses label s := by
  rcases leads_action h with ⟨w, hlead⟩ | ⟨p, hp, hname⟩
  · exact (refuses_ident (by simp [hlead])).bind.named
  · refine (hname.refuses rfl (by decide) ?_).named
    rintro rfl
    exact absurd hp (by decide)

theorem parses_labels {labels : List String} {a : Action} (h : Spells none (labelTokens labels) s t)
    (ha : Spells none a.tokens t s') : Parses (many label) labels s t := by
  refine parses_many_of_spells h (fun x _ s s' hx => ?_) (fun x => ⟨_, List.mem_cons_self, rfl⟩)
    (Or.inr (refuses_label ha))
  obtain ⟨s₁, hx, s₂, hcolon, rfl⟩ := hx
  exact Parses.named (hx.parses_ident.bind ((hcolon.parses_punct rfl).bind parses_pure))

end TacFlow.Grammar
