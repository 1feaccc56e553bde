import TacFlow.Proofs.Grammar.Parsing

/-!
# Parsing programs

Parts of bodies, methods and classes are parsed like statements. A statement is not taken for a declaration:
that would be a type with a name behind it, and behind the name that begins a statement there is
a character. So a text that is spelled by the tokens of a program is read as this program, whatever
separates the tokens, and only the positions in the tree are those of the text.
-/

namespace TacFlow.Source

/-! ## Trees without positions -/

/-- A statement without its position. -/
def Stmt.unplaced (s : Stmt) : Stmt :=
  { s with pos := 0 }

/-- A part of a body without positions. -/
def Item.unplaced : Item → Item
  | locals type names _ => .locals type names 0
  | stmt s => .stmt s.unplaced

/-- A method declaration without positions. -/
def Method.unplaced (m : Method) : Method :=
  { m with body := m.body.map (·.map Item.unplaced), pos := 0 }

/-- A class declaration without positions. -/
def Class.unplaced (c : Class) : Class :=
  { c with methods := c.methods.map Method.unplaced, pos := 0 }

/-- What the grammar makes sure of: a declaration has a variable, and a call has a receiver exactly if it
is not static. -/
def Item.Written : Item → Prop
  | locals _ names _ => names ≠ []
  | stmt s => s.action.Received

/-- All parts of a body are such. -/
def Method.Written (m : Method) : Prop :=
  ∀ items, m.body = some items → ∀ i ∈ items, i.Written

end TacFlow.Source

namespace TacFlow.Grammar

open Source Rule Scanner

variable {s s' t u : List Char} {ts : List Token} {p : Char}

theorem yields_item_written : item.Yields Item.Written := by
  refine yields_named (yields_orElse (yields_named ?_) ?_)
  · iterate 2 refine yields_then fun _ => ?_
    have hnames : (separated ident).Yields (· ≠ []) := by
      iterate 2 refine yields_then fun _ => ?_
      exact yields_pure (by simp)
    refine yields_bind hnames fun names hne => yields_then fun _ => yields_pure hne
  · have hstmt : stmt.Yields fun s => s.action.Received := by
      refine yields_named (yields_then fun _ => yields_then fun _ => ?_)
      exact yields_bind yields_action fun _ ha => yields_pure ha
    exact yields_bind hstmt fun _ hs => yields_pure hs

theorem written_of_parse {text : List Char} {classes : List Source.Class}
    (h : parse text = .ok classes) : ∀ c ∈ classes, ∀ m ∈ c.methods, m.Written :=
  items_of_parse yields_item_written h

/-! ## Declarations of variables -/

/-- A type with no name behind it begins no declaration. -/
theorem refuses_localDecl {ty : Ty} (h : Next none (.type ty) s t) (ht : lead t ≠ .name) :
    Refuses localDecl s :=
  (refuses_position fun _ => h.parses_type.bind_refuses (refuses_ident ht).bind.bind).named

theorem head_of_lead (h : lead s = .sign p) : ∃ t, s = p :: t := by
  cases s with
  | nil => exact absurd h (by simp [lead])
  | cons c t =>
      simp only [lead] at h
      split at h
      · split at h <;> exact absurd h (by simp)
      · split at h
        · exact absurd h (by simp)
        · exact ⟨t, by rw [Lead.sign.inj h]⟩

/-- Blank space does not begin with a character that continues a name or a type. -/
theorem head_blank {g : List Char} (h : Scanner.blank (g ++ t) = some g.length) (hg : g ≠ []) :
    ∃ c g', g = c :: g' ∧ isNameStart c = false ∧ c ∉ ['.', '[', ']'] := by
  obtain ⟨c, g', rfl⟩ := List.exists_cons_of_ne_nil hg
  refine ⟨c, g', rfl, ?_⟩
  rcases head_of_blank h with hwhite | rfl
  · exact Text.forall_white (fun c => isNameStart c = false ∧ c ∉ ['.', '[', ']'])
      (by decide +kernel) hwhite
  · decide

theorem dottedTail_append {cs : List Char} (hcs : ∀ d ∈ cs, isNameChar d = true) (ht : DottedTail t) :
    DottedTail (cs ++ t) := by
  induction cs with
  | nil => exact ht
  | cons d cs ih =>
      exact .char (hcs d List.mem_cons_self) (ih fun e he => hcs e (List.mem_cons_of_mem d he))

/-- A name in front of no part of a dotted name and no dimension is read as a type. -/
theorem next_type_of_ident {x : String} {l g : List Char} (hs : s = l ++ (g ++ t))
    (h : (Token.ident x).Lexes l (g ++ t)) (hblank : Scanner.blank (g ++ t) = some g.length)
    (hflag : (ahead (g ++ t)).2 = false) : ∃ ty, Next none (.type ty) s t := by
  obtain ⟨_, hname, hun, hends⟩ := h
  refine ⟨_, l, g, hs, ⟨l, 0, (List.append_nil l).symm, rfl, ?_, hun, fun _ => ?_, ?_⟩, hblank⟩
  · cases l with
    | nil => exact absurd hname id
    | cons c cs => exact ⟨hname.1, List.append_nil cs ▸ dottedTail_append hname.2 .nil⟩
  · cases htail : g ++ t with
    | nil => trivial
    | cons c u =>
        rw [htail] at hflag hends
        by_cases hdot : c = '.'
        · subst hdot
          cases u with
          | nil => exact fun d hd => absurd hd (by simp)
          | cons d u =>
              rintro _ ⟨⟩
              exact hflag
        · exact (endsName_cons hdot).mpr (hends c rfl)
  · rintro ⟨u, hu⟩
    rw [← hu] at hflag
    exact absurd hflag (by simp [ahead])

/-- Two names with a dot and no blank space between them are read as a type. -/
theorem next_type_of_dotted {x f : String} {l l' g : List Char} (hs : s = l ++ '.' :: (l' ++ (g ++ t)))
    (h : (Token.ident x).Lexes l ('.' :: (l' ++ (g ++ t)))) (h' : (Token.ident f).Lexes l' (g ++ t))
    (hblank : Scanner.blank (g ++ t) = some g.length)
    (hends : EndsName (g ++ t) ∧ ¬ ['[', ']'] <+: g ++ t) : ∃ ty, Next none (.type ty) s t := by
  obtain ⟨_, hname, hun, _⟩ := h
  obtain ⟨_, hname', _, _⟩ := h'
  refine ⟨_, l ++ '.' :: l', g, by simp [hs],
    ⟨l ++ '.' :: l', 0, (List.append_nil _).symm, rfl, ?_, ?_, fun _ => hends.1, hends.2⟩, hblank⟩
  · obtain ⟨d, ds, rfl, hd⟩ := exists_cons_of_isName hname'
    cases l with
    | nil => exact absurd hname id
    | cons c cs =>
        refine ⟨hname.1, dottedTail_append hname.2 (.dot hd ?_)⟩
        exact List.append_nil ds ▸ dottedTail_append hname'.2 .nil
  · refine (unreserved_append ?_).mpr hun
    rintro c ⟨⟩
    decide

/-- Behind blank space a text continues no type. -/
theorem ahead_blank {g : List Char} (h : Scanner.blank (g ++ t) = some g.length)
    (ht : (ahead t).2 = false ∨ g ≠ []) : (ahead (g ++ t)).2 = false := by
  by_cases hg : g = []
  · subst hg
    exact ht.resolve_right (not_not.mpr rfl)
  · obtain ⟨c, g', rfl, _, hc⟩ := head_blank h hg
    simp only [List.mem_cons, not_or] at hc
    simp [ahead, hc.1, hc.2.1]

/-- A name with a character behind it that continues no type begins no declaration. -/
theorem refuses_localDecl_of_sign {x : String} (hx : Next none (.ident x) s t) (ht : lead t = .sign p)
    (hflag : (ahead t).2 = false) : Refuses localDecl s := by
  obtain ⟨l, g, hs, hlexes, hblank⟩ := hx
  obtain ⟨ty, hty⟩ := next_type_of_ident hs hlexes hblank (ahead_blank hblank (Or.inl hflag))
  exact refuses_localDecl hty (by simp [ht])

/-- An assignment to a field begins no declaration: the field may be read as a type, but an equals sign
follows it. -/
theorem refuses_localDecl_of_field {x f : String} (hx : Next none (.ident x) s t)
    (hdot : Next none (.punct '.') t u) (hf : Next none (.ident f) u s') (hs' : lead s' = .sign '=') :
    Refuses localDecl s := by
  have ht : lead t = .sign '.' := hdot.leads rfl
  obtain ⟨l, g, hs, hlexes, hblank⟩ := hx
  by_cases hflag : (ahead (g ++ t)).2 = false
  · obtain ⟨ty, hty⟩ := next_type_of_ident hs hlexes hblank hflag
    exact refuses_localDecl hty (by simp [ht])
  -- the three lexemes stand next to each other
  obtain rfl : g = [] := by
    by_contra hg
    exact hflag (ahead_blank hblank (Or.inr hg))
  obtain ⟨_, g₂, rfl, ⟨rfl, _⟩, hblank₂⟩ := hdot
  obtain rfl : g₂ = [] := by
    by_contra hg
    obtain ⟨c, g', rfl, hc, _⟩ := head_blank hblank₂ hg
    exact hflag (by simpa [ahead] using hc)
  obtain ⟨l', g₃, rfl, hlexes', hblank₃⟩ := hf
  obtain ⟨v, rfl⟩ := head_of_lead hs'
  have hends : EndsName (g₃ ++ '=' :: v) ∧ ¬ ['[', ']'] <+: g₃ ++ '=' :: v := by
    cases g₃ with
    | nil => exact ⟨(endsName_cons (by decide)).mpr (by decide), by simp⟩
    | cons c g' =>
        obtain ⟨_, _, ⟨rfl, rfl⟩, _, hc⟩ := head_blank hblank₃ (by simp)
        simp only [List.mem_cons, not_or] at hc
        refine ⟨(endsName_cons hc.1).mpr (hlexes'.2.2.2 c rfl), ?_⟩
        rintro ⟨w, hw⟩
        exact hc.2.1 (List.cons.inj hw).1.symm
  have hjoined : s = l ++ '.' :: (l' ++ (g₃ ++ '=' :: v)) := hs
  obtain ⟨ty, hty⟩ := next_type_of_dotted hjoined hlexes hlexes' hblank₃ hends
  exact refuses_localDecl hty (by simp [hs'])

/-- A bracket with an index behind it opens no dimension. -/
theorem ahead_bracket (h : Next none (.punct '[') t u) (hu : lead u ≠ .sign ']') :
    (ahead t).2 = false := by
  obtain ⟨_, g, rfl, ⟨rfl, _⟩, hblank⟩ := h
  cases htail : g ++ u with
  | nil => rfl
  | cons c v =>
      have hc : c ≠ ']' := by
        rintro rfl
        by_cases hg : g = []
        · subst hg
          obtain rfl : u = ']' :: v := htail
          exact hu (lead_of_sign (by decide))
        · obtain ⟨d, g', rfl, _, hd⟩ := head_blank hblank hg
          obtain rfl := (List.cons.inj htail).1
          exact hd (by simp)
      simpa [ahead] using hc

theorem ahead_of_lead (h : lead t = .sign p) (hp : p ≠ '.' ∧ p ≠ '[') : (ahead t).2 = false := by
  obtain ⟨u, rfl⟩ := head_of_lead h
  simp [ahead, hp.1, hp.2]

/-- A statement is not read as a declaration. -/
theorem refuses_localDecl_of_action {a : Action} (h : Spells none a.tokens s s') :
    Refuses localDecl s := by
  have hkeyword : ∀ {w}, lead s = .keyword w → Refuses localDecl s := fun hlead =>
    (refuses_position fun _ => (refuses_type (by simp [hlead])).bind).named
  cases a with
  | branch left op right label => exact hkeyword (h.choose_spec.1.leads rfl)
  | goto label => exact hkeyword (h.choose_spec.1.leads rfl)
  | switch x cases default => exact hkeyword (h.choose_spec.1.leads rfl)
  | ret x => exact hkeyword (h.choose_spec.1.leads rfl)
  | nop => exact hkeyword (h.choose_spec.1.leads rfl)
  | invoke result c =>
      cases result with
      | none => exact hkeyword (lead_call h)
      | some x =>
          obtain ⟨t, hx, h⟩ := h
          have hlead := lead_punct h
          exact refuses_localDecl_of_sign hx hlead (ahead_of_lead hlead (by decide))
  | assign target v =>
      obtain ⟨s₁, htarget, h⟩ := spells_append.mp h
      have hlead := lead_punct h
      cases target with
      | name x =>
          exact refuses_localDecl_of_sign (spells_singleton.mp htarget) hlead
            (ahead_of_lead hlead (by decide))
      | access a =>
          cases a with
          | element base index =>
              obtain ⟨t, hx, u, hbracket, hindex⟩ := htarget
              obtain ⟨_, hindex, _⟩ := spells_append.mp hindex
              refine refuses_localDecl_of_sign hx (hbracket.leads rfl) (ahead_bracket hbracket ?_)
              rcases leads_atom hindex with hu | hu | hu <;> simp [hu]
          | field base name =>
              obtain ⟨t, hx, u, hdot, _, hf, rfl⟩ := htarget
              exact refuses_localDecl_of_field hx hdot hf hlead

theorem refuses_localDecl_of_stmt {st : Source.Stmt} (h : Spells none st.tokens s s') :
    Refuses localDecl s := by
  obtain ⟨labels, pos, a⟩ := st
  obtain ⟨t, hlabels, _, ⟨rfl, _⟩, haction⟩ := spells_append.mp h
  cases labels with
  | nil =>
      obtain rfl := hlabels
      exact refuses_localDecl_of_action haction
  | cons x labels =>
      obtain ⟨u, hx, hcolon⟩ := hlabels
      have hlead := lead_punct hcolon
      exact refuses_localDecl_of_sign hx hlead (ahead_of_lead hlead (by decide))

/-! ## Bodies, methods and classes -/

theorem parses_stmt {st : Source.Stmt} (hst : st.action.Received) (h : Spells none st.tokens s s') :
    ParsesTo stmt (fun v => v.unplaced = st.unplaced) s s' := by
  obtain ⟨t, hlabels, _, ⟨rfl, _⟩, haction⟩ := spells_append.mp h
  refine ParsesTo.named ((parses_labels hlabels haction).bindTo (parsesTo_position fun n => ?_))
  exact (parses_action hst haction).bindTo (parsesTo_pure rfl)

theorem parses_locals {ty : Ty} {names : List String} {pos : Nat} (hne : names ≠ [])
    (h : Spells none (Item.locals ty names pos).tokens s s') :
    ParsesTo localDecl (fun i => i.unplaced = (Item.locals ty names pos).unplaced) s s' := by
  obtain ⟨_, ⟨rfl, _⟩, s₁, hty, h⟩ := h
  obtain ⟨s₂, hnames, s₃, hsemi, rfl⟩ := spells_append.mp h
  have hlead : lead s₂ = .sign ';' := hsemi.leads rfl
  have hlist : Parses (separated ident) names s₁ s₂ :=
    parses_separated hne hnames (fun x _ s s' hx _ => (spells_singleton.mp hx).parses_ident)
      (by simp [hlead]) (by simp [hlead])
  refine ParsesTo.named (parsesTo_position fun n => hty.parses_type.bindTo (hlist.bindTo ?_))
  exact (hsemi.parses_punct rfl).bindTo (parsesTo_pure rfl)

theorem parses_item {i : Item} (hi : i.Written) (h : Spells none i.tokens s s') :
    ParsesTo item (fun v => v.unplaced = i.unplaced) s s' := by
  cases i with
  | locals ty names pos => exact ParsesTo.named (ParsesTo.orElse_left (parses_locals hi h))
  | stmt st =>
      refine ParsesTo.named (ParsesTo.orElse_right ?_ (refuses_localDecl_of_stmt h))
      refine (parses_stmt hi h).bind fun v hv => parsesTo_pure ?_
      exact congrArg Item.stmt hv

theorem refuses_assignStmt (h : lead s ≠ .name) : Refuses assignStmt s := by
  have hident := refuses_ident h
  exact ((hident.bind.named.bind.orElse (hident.bind.named.bind.orElse hident.bind)).named.bind).named

/-- Behind the parts of a body a brace is ahead, with which no further part begins. -/
theorem refuses_item (h : lead s = .sign p) : Refuses item s := by
  have haction : Refuses action s :=
    ((refuses_ifStmt (by simp [h])).orElse ((refuses_gotoStmt (by simp [h])).orElse
      ((refuses_switchStmt (by simp [h])).orElse ((refuses_returnStmt (by simp [h])).orElse
        ((refuses_nopStmt (by simp [h])).orElse
          ((refuses_invokeStmt (refuses_resultAssign (by simp [h])) (by simp [h])).orElse
            (refuses_assignStmt (by simp [h])))))))).named
  have hlabel : Refuses label s := (refuses_ident (by simp [h])).bind.named
  have hstmt : Refuses stmt s :=
    ((parses_many_nil hlabel).bind_refuses (refuses_position fun _ => haction.bind)).named
  have hlocal : Refuses localDecl s :=
    (refuses_position fun _ => (refuses_type (by simp [h])).bind).named
  exact (hlocal.orElse hstmt.bind).named

/-- Repeated values that agree one by one, up to their positions. -/
theorem map_eq_of_forall₂ {α β : Type} {f : α → β} {as bs : List α}
    (h : List.Forall₂ (fun a b => f b = f a) as bs) : bs.map f = as.map f := by
  induction h with
  | nil => rfl
  | cons hab _ ih => rw [List.map_cons, List.map_cons, hab, ih]

/-- A repetition reads values that agree with those whose tokens are spelled, up to their positions. -/
theorem parsesTo_many_of_spells {α β : Type} {r : Rule α} {tokens : α → List Token} {f : α → β}
    {as : List α} (h : Spells none (as.flatMap tokens) s s')
    (hr : ∀ a ∈ as, ∀ s s', Spells none (tokens a) s s' → ParsesTo r (fun b => f b = f a) s s')
    (hvisible : ∀ a, ∃ k ∈ tokens a, k.isVisible = true) (hstop : s' = [] ∨ Refuses r s') :
    ParsesTo (many r) (fun bs => bs.map f = as.map f) s s' := by
  have hrow := row_of_spells h fun a ha s s' hs => And.intro (hr a ha s s' hs) (hs.length_lt (hvisible a))
  exact (parsesTo_many (R := fun a b => f b = f a) hrow hstop).imp fun _ => map_eq_of_forall₂

theorem isVisible_item (i : Item) : ∃ k ∈ i.tokens, k.isVisible = true := by
  cases i with
  | locals ty names pos => exact ⟨.type ty, by simp [Item.tokens], rfl⟩
  | stmt st =>
      obtain ⟨labels, pos, a⟩ := st
      have ha : ∃ k ∈ a.tokens, k.isVisible = true := by
        cases a with
        | invoke result c => exact ⟨.punct ';', by simp [Action.tokens], rfl⟩
        | assign target v => exact ⟨.punct ';', by simp [Action.tokens], rfl⟩
        | _ => exact ⟨_, List.mem_cons_self, rfl⟩
      obtain ⟨k, hk, hvisible⟩ := ha
      exact ⟨k, by simp [Item.tokens, Stmt.tokens, hk], hvisible⟩

theorem parses_methodBody {b : Option (List Item)} (hb : ∀ items, b = some items → ∀ i ∈ items, i.Written)
    (h : Spells none (bodyTokens b) s s') :
    ParsesTo methodBody (fun v => v.map (·.map Item.unplaced) = b.map (·.map Item.unplaced)) s s' := by
  cases b with
  | none =>
      refine ParsesTo.named (ParsesTo.orElse_left ?_)
      exact ((spells_singleton.mp h).parses_punct rfl).bindTo (parsesTo_pure rfl)
  | some items =>
      have hlead := lead_punct h
      obtain ⟨s₁, hopen, h⟩ := h
      obtain ⟨s₂, hitems, _, hclose, rfl⟩ := spells_append.mp h
      have hmany : ParsesTo (many item) (fun v => v.map Item.unplaced = items.map Item.unplaced) s₁ s₂ :=
        parsesTo_many_of_spells hitems (fun i hi _ _ => parses_item (hb items rfl i hi))
          isVisible_item (Or.inr (refuses_item (hclose.leads rfl)))
      have hblock : ParsesTo block (fun v => v.map Item.unplaced = items.map Item.unplaced) s s' := by
        refine ParsesTo.named ((hopen.parses_punct rfl).bindTo (hmany.bind fun v hv => ?_))
        exact (hclose.parses_punct rfl).bindTo (parsesTo_pure hv)
      refine ParsesTo.named (ParsesTo.orElse_right (hblock.bind fun v hv => parsesTo_pure ?_)
        (refuses_punct rfl (by decide) ?_).bind)
      · exact congrArg some hv
      · rw [hlead]
        decide

theorem parses_modifier {m : Modifier} (h : Next none (.word m.word) s s') : Parses modifier m s s' := by
  have hlead : lead s = .keyword m.word := h.leads rfl
  have hword := h.parses_word
  cases m with
  | staticWord =>
      refine Parses.named (Parses.orElse_left ?_)
      exact hword.bind parses_pure
  | abstractWord =>
      refine Parses.named (Parses.orElse_right (Parses.orElse_left ?_) ?_)
      · exact hword.bind parses_pure
      · exact (refuses_word (by decide) (by simp [hlead, Modifier.word])).bind
  | privateWord =>
      refine Parses.named (Parses.orElse_right (Parses.orElse_right (Parses.orElse_left ?_) ?_) ?_)
      · exact hword.bind parses_pure
      · exact (refuses_word (by decide) (by simp [hlead, Modifier.word])).bind
      · exact (refuses_word (by decide) (by simp [hlead, Modifier.word])).bind
  | publicWord =>
      refine Parses.named (Parses.orElse_right (Parses.orElse_right (Parses.orElse_right ?_ ?_) ?_) ?_)
      · exact hword.bind parses_pure
      · exact (refuses_word (by decide) (by simp [hlead, Modifier.word])).bind
      · exact (refuses_word (by decide) (by simp [hlead, Modifier.word])).bind
      · exact (refuses_word (by decide) (by simp [hlead, Modifier.word])).bind

theorem refuses_modifier (h : ∀ w, lead s ≠ .keyword w) : Refuses modifier s :=
  ((refuses_word (by decide) (h _)).bind.orElse ((refuses_word (by decide) (h _)).bind.orElse
    ((refuses_word (by decide) (h _)).bind.orElse (refuses_word (by decide) (h _)).bind))).named

theorem parses_param {q : Ty × Option String} (h : Spells none (paramTokens q) s s')
    (hs' : lead s' ≠ .name) : Parses param q s s' := by
  obtain ⟨ty, name⟩ := q
  obtain ⟨s₁, hty, h⟩ := h
  refine Parses.named (hty.parses_type.bind (Parses.bind ?_ parses_pure))
  cases name with
  | none =>
      obtain rfl := h
      exact parses_optional_none (refuses_ident hs')
  | some x =>
      have hx := spells_singleton.mp h
      have hlt := hx.length_lt rfl
      exact hx.parses_ident.optional (List.ne_nil_of_length_pos (by omega))

theorem parses_method {m : Source.Method} (hm : m.Written) (h : Spells none m.tokens s s') :
    ParsesTo method (fun v => v.unplaced = m.unplaced) s s' := by
  obtain ⟨modifiers, result, name, params, body, pos⟩ := m
  obtain ⟨s, ⟨rfl, _⟩, h⟩ := h
  obtain ⟨s₁, hmodifiers, s₂, hresult, s₃, hname, s₄, hopen, h⟩ := spells_append.mp h
  obtain ⟨s₅, hparams, s₆, hclose, hbody⟩ := spells_append.mp h
  have hlead₁ : lead s₁ = .name := hresult.leads rfl
  have hlead₅ : lead s₅ = .sign ')' := hclose.leads rfl
  have hmany : Parses (many modifier) modifiers s s₁ := by
    rw [List.map_eq_flatMap] at hmodifiers
    exact parses_many_of_spells hmodifiers (fun _ _ _ _ hm => parses_modifier (spells_singleton.mp hm))
      (fun _ => ⟨_, List.mem_singleton_self _, rfl⟩) (Or.inr (refuses_modifier (by simp [hlead₁])))
  obtain ⟨o, ho, hparams⟩ := parses_optional_list (r := paramList) (Or.inr rfl) hparams
    (fun _ _ _ _ => parses_param) (refuses_type (by simp [hlead₅])).bind.named
    (fun _ => ⟨_, List.mem_cons_self, rfl⟩) hlead₅
  refine ParsesTo.named (parsesTo_position fun n => hmany.bindTo (hresult.parses_type.bindTo ?_))
  refine (parses_methodName hname).bindTo ((hopen.parses_punct rfl).bindTo (hparams.bindTo ?_))
  refine (hclose.parses_punct rfl).bindTo ((parses_methodBody hm hbody).bind fun b hb => parsesTo_pure ?_)
  simp only [Source.Method.unplaced, hb, ho]

theorem refuses_method (h : lead s = .sign p) : Refuses method s := by
  refine (refuses_position fun _ => ?_).named
  exact (parses_many_nil (refuses_modifier (by simp [h]))).bind_refuses (refuses_type (by simp [h])).bind

/-- The classes behind a keyword, or none if it is not ahead. -/
theorem parses_clause {w : String} (hw : w ∈ keywords) {names : List String}
    (h : Spells none (clauseTokens w names) s s') (hs' : lead s' ≠ .name ∧ lead s' ≠ .sign ',')
    (hnone : lead s' ≠ .keyword w) : ∃ o, o.getD [] = names ∧
      Parses (optional (named do word w; classNames)) o s s' := by
  cases names with
  | nil =>
      obtain rfl := h
      exact ⟨none, rfl, parses_optional_none (refuses_word hw hnone).bind.named⟩
  | cons x names =>
      obtain ⟨s₁, hword, hnames⟩ := h
      have hlt := hword.length_lt rfl
      refine ⟨some (x :: names), rfl, Parses.optional (Parses.named (hword.parses_word.bind ?_))
        (List.ne_nil_of_length_pos (by omega))⟩
      refine parses_separated (by simp) hnames (fun y _ s s' hy _ => ?_) hs'.1 hs'.2
      exact (spells_singleton.mp hy).parses_name parses_pure

theorem parses_classKind {b : Bool} (h : Next none (.word (kindWord b)) s s') :
    Parses classKind b s s' := by
  have hlead : lead s = .keyword (kindWord b) := h.leads rfl
  have hword := h.parses_word
  cases b with
  | false =>
      refine Parses.named (Parses.orElse_left ?_)
      exact hword.bind parses_pure
  | true =>
      refine Parses.named (Parses.orElse_right ?_ ?_)
      · exact hword.bind parses_pure
      · exact (refuses_word (by decide) (by simp [hlead, kindWord])).bind

theorem lead_clause {w : String} {names : List String} (h : Spells none (clauseTokens w names) s s') :
    lead s = .keyword w ∨ s = s' := by
  cases names with
  | nil => exact Or.inr h.symm
  | cons x names => exact Or.inl (h.choose_spec.1.leads rfl)

theorem parses_classDecl {c : Source.Class} (hc : ∀ m ∈ c.methods, m.Written)
    (h : Spells none c.tokens s s') : ParsesTo classDecl (fun v => v.unplaced = c.unplaced) s s' := by
  obtain ⟨name, isInterface, isAbstract, extended, implemented, methods, pos⟩ := c
  obtain ⟨s, ⟨rfl, _⟩, h⟩ := h
  obtain ⟨s₁, habstract, s₂, hkind, s₃, hname, h⟩ := spells_append.mp h
  obtain ⟨s₄, hextended, h⟩ := spells_append.mp h
  obtain ⟨s₅, himplemented, s₆, hopen, h⟩ := spells_append.mp h
  obtain ⟨s₇, hmethods, s₈, hclose, rfl⟩ := spells_append.mp h
  have hlead₅ : lead s₅ = .sign '{' := hopen.leads rfl
  have hlead₄ : lead s₄ = .keyword "implements" ∨ lead s₄ = .sign '{' := by
    rcases lead_clause himplemented with hlead | rfl
    · exact Or.inl hlead
    · exact Or.inr hlead₅
  have hoption : ∃ o : Option Unit, o.isSome = isAbstract ∧ Parses (optional (word "abstract")) o s s₁ := by
    cases isAbstract with
    | false =>
        obtain rfl := habstract
        have hlead : lead s₁ = .keyword (kindWord isInterface) := hkind.leads rfl
        refine ⟨none, rfl, parses_optional_none (refuses_word (by decide) ?_)⟩
        cases isInterface <;> simp [hlead, kindWord]
    | true =>
        have hword := spells_singleton.mp habstract
        have hlt := hword.length_lt rfl
        exact ⟨some (), rfl, hword.parses_word.optional (List.ne_nil_of_length_pos (by omega))⟩
  obtain ⟨a, ha, habstract⟩ := hoption
  obtain ⟨o, ho, hextended⟩ := parses_clause (w := "extends") (by decide) hextended
    (by rcases hlead₄ with hlead | hlead <;> simp [hlead])
    (by rcases hlead₄ with hlead | hlead <;> simp [hlead])
  obtain ⟨o', ho', himplemented⟩ := parses_clause (w := "implements") (by decide) himplemented
    (by simp [hlead₅]) (by simp [hlead₅])
  have hmany : ParsesTo (many method) (fun v => v.map Source.Method.unplaced =
      methods.map Source.Method.unplaced) s₆ s₇ :=
    parsesTo_many_of_spells hmethods (fun m hm _ _ => parses_method (hc m hm))
      (fun m => ⟨.type m.result, by simp [Source.Method.tokens], rfl⟩)
      (Or.inr (refuses_method (hclose.leads rfl)))
  refine ParsesTo.named (parsesTo_position fun n => habstract.bindTo ?_)
  refine (parses_classKind hkind).bindTo (hname.parses_name (hextended.bindTo (himplemented.bindTo ?_)))
  refine (hopen.parses_punct rfl).bindTo (hmany.bind fun v hv => ?_)
  refine (hclose.parses_punct rfl).bindTo (parsesTo_pure ?_)
  simp only [Source.Class.unplaced, hv, ha, ho, ho']

/-- **Blank space and the tokens of classes are read as these classes**, up to the positions in them. -/
theorem exists_parse_of_spells {g s : List Char} {classes : List Source.Class}
    (hclasses : ∀ c ∈ classes, ∀ m ∈ c.methods, m.Written)
    (hblank : Scanner.blank (g ++ s) = some g.length) (h : Spells none (programTokens classes) s []) :
    ∃ read, parse (g ++ s) = .ok read ∧
      read.map Source.Class.unplaced = classes.map Source.Class.unplaced := by
  have hblank : Parses blank () (g ++ s) s :=
    parses_of_spans fun hspans hrest => reads_blank.mpr ⟨g, hspans, hrest ▸ hblank⟩
  have hmany : ParsesTo (many classDecl) (fun v => v.map Source.Class.unplaced =
      classes.map Source.Class.unplaced) s [] :=
    parsesTo_many_of_spells h (fun c hc _ _ => parses_classDecl (hclasses c hc))
      (fun c => ⟨.name c.name, by simp [Source.Class.tokens], rfl⟩) (Or.inl rfl)
  have hprogram : ParsesTo program (fun v => v.map Source.Class.unplaced =
      classes.map Source.Class.unplaced) (g ++ s) [] := by
    refine ParsesTo.named (hblank.bindTo (hmany.bind fun v hv c hc => ?_))
    exact ⟨v, c, reads_bind.mpr ⟨(), c, reads_endOfText.mpr ⟨hc, rfl⟩, reads_pure.mpr ⟨rfl, rfl⟩⟩,
      hv, hc, rfl⟩
  obtain ⟨read, d, hread, hmap, _⟩ := hprogram ⟨0, _⟩ rfl
  exact ⟨read, parse_eq_ok.mpr ⟨d, hread⟩, hmap⟩

end TacFlow.Grammar
