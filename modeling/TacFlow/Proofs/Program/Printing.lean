import TacFlow.Proofs.Grammar.Printing
import TacFlow.Proofs.Program.Replacing
import TacFlow.Proofs.Program.Resolution
import TacFlow.Proofs.Program.Signature

/-!
# Printed statements

The written form of a statement is the text of its own tokens, however the text was laid out and its
literals were written that the statement comes from. So in a program that was read every statement that is
not a jump may be replaced by its written form: the text is read as the same program, up to the lines
of the statements.
-/

namespace TacFlow

open Grammar
open Source (Atom Access Target Action Callee)

/-- Statements that name a place to go on at. -/
def Stmt.isJump : Stmt → Bool
  | branch _ _ | goto _ | switch _ _ _ => true
  | assign _ _ | invoke _ _ | ret _ | nop => false

namespace Resolve

variable {sc : Scope} {pos : Nat}

/-! ## Operands and accesses -/

theorem name_of_var {x : String} {v : Var} (h : sc.var pos x = .ok v) : v.name = x := by
  unfold Scope.var at h
  split at h
  · rename_i y hy
    cases h
    exact by simpa using List.find?_some hy
  · exact absurd h nofun

/-- What stands in a text of a variable is its name. -/
theorem prints_var {x : String} {v : Var} (hx : (Token.ident x).IsWritten) (h : sc.var pos x = .ok v) :
    Prints [.ident x] v.name.toList := by
  rw [name_of_var h]
  exact hx.prints (by simp) rfl

theorem prints_atom {a : Atom} {e : Expr} (ha : ∀ k ∈ a.tokens, k.IsWritten)
    (h : sc.atom pos a = .ok e) : Prints (a.mapLiterals canonical).tokens e.text.toList := by
  cases a with
  | lit n =>
      cases h
      exact prints_int n
  | name x =>
      obtain ⟨v, hv, h⟩ := bind_eq_ok.mp h
      cases h
      exact prints_var (ha _ (by simp [Atom.tokens])) hv

/-- A field is written with its base, be it a variable or a class. -/
theorem text_of_field {base name : String} {p : Place} (h : sc.access pos (.field base name) = .ok p) :
    p.toExpr.text.toList = base.toList ++ '.' :: name.toList := by
  simp only [Scope.access] at h
  split at h
  · rename_i v hv
    cases h
    have hx : v.name = base := by simpa using List.find?_some hv
    simp [Place.toExpr, Expr.text, hx]
  · split at h
    · cases h
      simp [Place.toExpr, Expr.text]
    · exact absurd h (by simp [Origin.reject])

theorem prints_access {a : Access} {p : Place} (ha : ∀ k ∈ a.tokens, k.IsWritten)
    (h : sc.access pos a = .ok p) : Prints (a.mapLiterals canonical).tokens p.toExpr.text.toList := by
  cases a with
  | element base index =>
      obtain ⟨v, hv, h⟩ := bind_eq_ok.mp h
      obtain ⟨i, hi, h⟩ := bind_eq_ok.mp h
      cases h
      have hindex := prints_atom (fun k hk => ha k (by simp [Access.tokens, hk])) hi
      have hbase : (Token.ident base).IsWritten := ha _ (by simp [Access.tokens])
      have htext : (Place.element v i).toExpr.text.toList =
          base.toList ++ '[' :: (i.text.toList ++ [']']) := by
        simp [Place.toExpr, Expr.text, name_of_var hv]
      rw [htext]
      refine hbase.prints_ident (by decide) (Prints.punct (by decide) ?_)
      exact hindex.append (by decide) (prints_punct (by decide))
  | field base name =>
      have hbase : (Token.ident base).IsWritten := ha _ (by simp [Access.tokens])
      have hname : (Token.ident name).IsWritten := ha _ (by simp [Access.tokens])
      rw [text_of_field h]
      exact hbase.prints_ident (by decide) (Prints.punct (by decide) (hname.prints (by simp) rfl))

/-! ## Both sides of an assignment -/

theorem prints_target {t : Target} {p : Place} (ht : ∀ k ∈ t.tokens, k.IsWritten)
    (h : sc.target pos t = .ok p) : Prints (t.mapLiterals canonical).tokens p.toExpr.text.toList := by
  cases t with
  | name x =>
      obtain ⟨v, hv, h⟩ := bind_eq_ok.mp h
      cases h
      exact prints_var (ht _ (by simp [Target.tokens])) hv
  | access a => exact prints_access ht h

theorem prints_value {v : Source.Value} {e : Expr} (hv : ∀ k ∈ v.tokens, k.IsWritten)
    (h : sc.value pos v = .ok e) : Prints (v.mapLiterals canonical).tokens e.text.toList := by
  cases v with
  | atom a => exact prints_atom hv h
  | alloc t =>
      cases h
      have hword : (Token.word "new").IsWritten := hv _ (by simp [Source.Value.tokens])
      have htype : (Token.type t).IsWritten := hv _ (by simp [Source.Value.tokens])
      have htext : (Expr.alloc t).text.toList = "new".toList ++ ' ' :: t.text.toList := by
        simp [Expr.text]
      rw [htext]
      exact (hword.prints (by simp) rfl).space (htype.prints (by simp) rfl)
  | cast t a =>
      obtain ⟨e, he, h⟩ := bind_eq_ok.mp h
      cases h
      have htype : (Token.type t).IsWritten := hv _ (by simp [Source.Value.tokens])
      have htext : (Expr.cast t e).text.toList = '(' :: (t.text.toList ++ ')' :: ' ' :: e.text.toList) := by
        simp [Expr.text]
      rw [htext]
      have hatom := prints_atom (fun k hk => hv k (by simp [Source.Value.tokens, hk])) he
      refine Prints.punct (by decide) ?_
      refine (htype.prints (by simp) rfl).append (by decide) ?_
      exact (prints_punct (by decide)).space hatom
  | binary l op r =>
      obtain ⟨el, hl, h⟩ := bind_eq_ok.mp h
      obtain ⟨er, hr, h⟩ := bind_eq_ok.mp h
      cases h
      have hop : (Token.op op).IsWritten := hv _ (by simp [Source.Value.tokens])
      have htext : (Expr.binary op el er).text.toList =
          el.text.toList ++ ' ' :: (op.symbol.toList ++ ' ' :: er.text.toList) := by
        simp [Expr.text]
      rw [htext]
      refine (prints_atom (fun k hk => hv k (by simp [Source.Value.tokens, hk])) hl).space ?_
      refine (hop.prints (by simp) rfl).space ?_
      exact prints_atom (fun k hk => hv k (by simp [Source.Value.tokens, hk])) hr
  | access a =>
      obtain ⟨p, hp, h⟩ := bind_eq_ok.mp h
      cases h
      exact prints_access hv hp

/-! ## Calls -/

/-- The signature at a call is printed as it is written anywhere. -/
theorem prints_callee {c : Callee} (hc : ∀ k ∈ c.tokens, k.IsWritten) :
    Prints c.tokens (MethodId.text ⟨classId c.owner, c.subsig⟩).toList := by
  have howner : (Token.name c.owner).IsWritten := hc _ (by simp [Callee.tokens])
  have hresult : (Token.type c.subsig.result).IsWritten := hc _ (by simp [Callee.tokens])
  have hname : Prints [Source.methodToken c.subsig.name] c.subsig.name.toList := by
    have hwritten : (Source.methodToken c.subsig.name).IsWritten := hc _ (by simp [Callee.tokens])
    unfold Source.methodToken at hwritten ⊢
    split
    · rw [if_pos ‹_›] at hwritten
      exact hwritten.prints (by simp) rfl
    · rw [if_neg ‹_›] at hwritten
      exact hwritten.prints (by simp) rfl
  have hparams : Prints (Source.listed (fun t => [.type t]) c.subsig.params ++ [.punct ')', .punct '>'])
      (Subsignature.paramsText c.subsig.params ++ [')', '>']) := by
    refine prints_listed (Or.inl rfl) (List.forall₂_same.mpr fun t ht => ?_)
      ((prints_punct (by decide)).punct (by decide))
    have hmem : Token.type t ∈ Source.listed (fun t => [.type t]) c.subsig.params :=
      mem_listed ht (List.mem_singleton_self _)
    have hwritten : (Token.type t).IsWritten := hc _ (by simp [Callee.tokens, hmem])
    exact hwritten.prints (by simp) rfl
  rw [MethodId.toList_text, Subsignature.toList_text]
  simp only [List.append_assoc, List.cons_append, List.nil_append]
  refine Prints.punct (by decide) ?_
  refine (howner.prints (by simp) rfl).append (by decide) ?_
  refine (prints_punct (by decide)).space ?_
  refine (hresult.prints (by simp) rfl).space ?_
  exact hname.append (by decide) (hparams.punct (by decide))

theorem textsOfAll_eq (es : List Expr) : Expr.textsOfAll es = es.map Expr.text := by
  induction es with
  | nil => rfl
  | cons e es ih => rw [Expr.textsOfAll, ih, List.map_cons]

/-- The arguments of a call are printed with commas and spaces between them. -/
theorem prints_args {args : List Atom} {es : List Expr}
    (hargs : ∀ a ∈ args, ∀ k ∈ a.tokens, k.IsWritten) (h : args.mapM (sc.atom pos) = .ok es) :
    Prints (Source.argTokens (args.map (·.mapLiterals canonical)))
      ('(' :: ([',', ' '].intercalate (es.map (·.text.toList)) ++ [')'])) := by
  have hatoms := (List.forall₂_and_left _ _).mpr ⟨hargs, forall₂_of_mapM h⟩
  refine Prints.punct (by decide) (prints_listed (Or.inr rfl) ?_ (prints_punct (by decide)))
  exact List.forall₂_map_left_iff.mpr (hatoms.imp fun a e ⟨ha, he⟩ => prints_atom ha he)

/-- The receiver of a call is printed with a dot in front of the signature. -/
theorem prints_receiver {name : Option String} {receiver : Option Var} {ts : List Token} {l : List Char}
    (hname : ∀ k ∈ Source.receiverTokens name, k.IsWritten) (h : name.mapM (sc.var pos) = .ok receiver)
    (h' : Prints ts l) : Prints (Source.receiverTokens name ++ ts)
      ((match receiver with
        | some x => x.name ++ "."
        | none => "").toList ++ l) := by
  cases name with
  | none =>
      cases h
      exact h'
  | some x =>
      obtain ⟨v, hv, h⟩ := bind_eq_ok.mp h
      cases h
      have hx : (Token.ident x).IsWritten := hname _ (by simp [Source.receiverTokens])
      have htext : (v.name ++ ".").toList ++ l = x.toList ++ '.' :: l := by
        simp [name_of_var hv]
      rw [htext]
      exact hx.prints_ident (by decide) (h'.punct (by decide))

theorem prints_call {c : Source.Call} {call : Call} (hc : ∀ k ∈ c.tokens, k.IsWritten)
    (h : sc.call pos c = .ok call) : Prints (c.mapLiterals canonical).tokens call.toExpr.text.toList := by
  obtain ⟨owner, howner, h⟩ := bind_eq_ok.mp h
  dsimp only at h
  split at h
  · exact absurd h nofun
  obtain ⟨args, hargs, h⟩ := bind_eq_ok.mp h
  obtain ⟨receiver, hreceiver, h⟩ := bind_eq_ok.mp h
  cases h
  have hid : owner.id = classId c.callee.owner := by
    unfold lookup at howner
    split at howner
    · cases howner
      exact (Hierarchy.mem_of_class? ‹_›).2
    · exact absurd howner nofun
  have htext : (Call.toExpr ⟨c.kind, ⟨owner.id, c.callee.subsig⟩, receiver, args⟩).text.toList =
      (Source.callWord c.kind).toList ++ ' ' :: ((match receiver with
        | some x => x.name ++ "."
        | none => "").toList ++ ((MethodId.text ⟨classId c.callee.owner, c.callee.subsig⟩).toList ++
          '(' :: ([',', ' '].intercalate (args.map (·.text.toList)) ++ [')']))) := by
    have hword : ("invoke" ++ c.kind.name).toList = (Source.callWord c.kind).toList := by
      cases c.kind <;> decide
    rw [← hid, ← hword]
    simp only [Call.toExpr, Expr.text, textsOfAll_eq, String.toList_append, String.toList_intercalate,
      List.append_assoc, List.map_map]
    rfl
  rw [htext]
  have hword : (Token.word (Source.callWord c.kind)).IsWritten := hc _ (by simp [Source.Call.tokens])
  refine (hword.prints (by simp) rfl).space ?_
  have hon : ∀ k ∈ Source.receiverTokens c.receiver, k.IsWritten := fun k hk =>
    hc k (by simp [Source.Call.tokens, hk])
  have hcallee : ∀ k ∈ c.callee.tokens, k.IsWritten := fun k hk =>
    hc k (by simp [Source.Call.tokens, hk])
  have hatoms : ∀ a ∈ c.args, ∀ k ∈ a.tokens, k.IsWritten := fun a ha k hk =>
    hc k (by simp [Source.Call.tokens, Source.argTokens, mem_listed ha hk])
  exact prints_receiver hon hreceiver ((prints_callee hcallee).append (by decide)
    (prints_args hatoms hargs))

/-! ## Statements -/

/-- **A statement that is not a jump is printed as its own tokens** in front of the semicolon. -/
theorem prints_stmt {a : Action} {s : Stmt} (ha : ∀ k ∈ a.tokens, k.IsWritten) (h : sc.stmt pos a = .ok s)
    (hjump : s.isJump = false) :
    ∃ ts, (a.mapLiterals canonical).tokens = ts ++ [.punct ';'] ∧ Prints ts s.text.toList := by
  cases a with
  | branch l op r label =>
      obtain ⟨_, _, h⟩ := bind_eq_ok.mp h
      obtain ⟨_, _, h⟩ := bind_eq_ok.mp h
      cases h
      exact absurd hjump nofun
  | goto label =>
      cases h
      exact absurd hjump nofun
  | switch x cases default =>
      obtain ⟨_, _, h⟩ := bind_eq_ok.mp h
      cases h
      exact absurd hjump nofun
  | ret x =>
      obtain ⟨v, hv, h⟩ := bind_eq_ok.mp h
      cases h
      have hword : (Token.word "return").IsWritten := ha _ (by simp [Action.tokens])
      cases x with
      | none =>
          cases hv
          exact ⟨[.word "return"], rfl, hword.prints (by simp) rfl⟩
      | some x =>
          obtain ⟨v, hvar, hv⟩ := bind_eq_ok.mp hv
          cases hv
          have hx : (Token.ident x).IsWritten := ha _ (by simp [Action.tokens])
          have htext : (Stmt.ret (some (.var v))).text.toList =
              "return".toList ++ ' ' :: v.name.toList := by
            simp [Stmt.text, Expr.text]
          refine ⟨[.word "return", .ident x], rfl, ?_⟩
          exact htext ▸ (hword.prints (by simp) rfl).space (prints_var hx hvar)
  | nop =>
      cases h
      have hword : (Token.word "nop").IsWritten := ha _ (by simp [Action.tokens])
      exact ⟨[.word "nop"], rfl, hword.prints (by simp) rfl⟩
  | invoke result c =>
      obtain ⟨v, hv, h⟩ := bind_eq_ok.mp h
      obtain ⟨call, hcall, h⟩ := bind_eq_ok.mp h
      cases h
      have hprints := prints_call (fun k hk => ha k (by simp [Action.tokens, hk])) hcall
      cases result with
      | none =>
          cases hv
          exact ⟨_, rfl, hprints⟩
      | some x =>
          obtain ⟨v, hvar, hv⟩ := bind_eq_ok.mp hv
          cases hv
          have hx : (Token.ident x).IsWritten := ha _ (by simp [Action.tokens, Source.resultTokens])
          have htext : (Stmt.invoke (some v) call).text.toList =
              v.name.toList ++ ' ' :: '=' :: ' ' :: call.toExpr.text.toList := by
            simp [Stmt.text]
          refine ⟨.ident x :: .punct '=' :: (c.mapLiterals canonical).tokens, rfl, ?_⟩
          exact htext ▸ (prints_var hx hvar).space ((prints_punct (by decide)).space hprints)
  | assign t v =>
      obtain ⟨p, hp, h⟩ := bind_eq_ok.mp h
      obtain ⟨e, he, h⟩ := bind_eq_ok.mp h
      cases h
      have htarget := prints_target (fun k hk => ha k (by simp [Action.tokens, hk])) hp
      have hvalue := prints_value (fun k hk => ha k (by simp [Action.tokens, hk])) he
      have htext : (Stmt.assign p e).text.toList =
          p.toExpr.text.toList ++ ' ' :: '=' :: ' ' :: e.text.toList := by
        simp [Stmt.text]
      refine ⟨(t.mapLiterals canonical).tokens ++ .punct '=' :: (v.mapLiterals canonical).tokens,
        ?_, ?_⟩
      · simp [Action.mapLiterals, Action.tokens]
      · exact htext ▸ htarget.space ((prints_punct (by decide)).space hvalue)

/-- Linking leaves other statements than jumps alone. -/
theorem eq_of_linkTargets {o : Origin} {labels : Labels} {src : Source.Stmt} {u s : Stmt}
    (h : linkTargets o labels src u = .ok s) (hjump : s.isJump = false) : u = s := by
  unfold linkTargets at h
  split at h
  · obtain ⟨_, _, h⟩ := bind_eq_ok.mp h
    cases h
    exact absurd hjump nofun
  · obtain ⟨_, _, h⟩ := bind_eq_ok.mp h
    cases h
    exact absurd hjump nofun
  · obtain ⟨_, _, h⟩ := bind_eq_ok.mp h
    obtain ⟨_, _, h⟩ := bind_eq_ok.mp h
    cases h
    exact absurd hjump nofun
  · cases h
    rfl

/-- A statement of a body comes from the statement of the source at the same place. -/
theorem exists_source {o : Origin} {h : Hierarchy} {id : MethodId} {m : Source.Method}
    {items : List Source.Item} {b : Body} (hb : body o h id m items = .ok b) {i : Nat} {s : Stmt}
    (hs : b.stmts[i]? = some s) (hjump : s.isJump = false) :
    ∃ src sc, (statements items)[i]? = some src ∧ Scope.stmt sc src.pos src.action = .ok s := by
  obtain ⟨params, _, hb⟩ := bind_eq_ok.mp hb
  obtain ⟨scope, _, hb⟩ := bind_eq_ok.mp hb
  obtain ⟨labels, _, hb⟩ := bind_eq_ok.mp hb
  obtain ⟨unlinked, hunlinked, hb⟩ := bind_eq_ok.mp hb
  obtain ⟨stmts, hstmts, hb⟩ := bind_eq_ok.mp hb
  cases hb
  have hall := forall₂_of_zip (T := fun src s => s.isJump = false → scope.stmt src.pos src.action = .ok s)
    (fun src u s hturn hlink hjump => eq_of_linkTargets hlink hjump ▸ hturn)
    (forall₂_of_mapM hunlinked) (forall₂_of_mapM hstmts)
  obtain ⟨hlength, hget⟩ := List.forall₂_iff_get.mp hall
  obtain ⟨hi, rfl⟩ := List.getElem?_eq_some_iff.mp hs
  have hi' : i < (statements items).length := hlength ▸ hi
  exact ⟨_, scope, List.getElem?_eq_getElem hi', hget i hi' hi hjump⟩

/-- A statement of a program comes from a statement of its source. -/
theorem exists_source_of_ofText [Nesting] {text : List Char} {main source : Option String} {p : Program}
    {id : MethodId} {b : Body} {i : Nat} {s : Stmt} (hp : Program.ofText text main source = .ok p)
    (hb : p.hierarchy.body? id = some b) (hs : b.stmts[i]? = some s) (hjump : s.isJump = false) :
    ∃ classes, parse text = .ok classes ∧ ∃ c ∈ classes, ∃ m ∈ c.methods, ∃ items,
      m.body = some items ∧ id = ⟨classId c.name, m.subsig⟩ ∧
        ∃ src sc, (statements items)[i]? = some src ∧ Scope.stmt sc src.pos src.action = .ok s := by
  obtain ⟨classes, hparse, hres⟩ := Program.exists_parse_of_ofText hp
  obtain ⟨m, hm, hcode⟩ := Option.bind_eq_some_iff.mp hb
  obtain ⟨hmem, rfl⟩ := (wellFormed_classes hres).method?_eq_some.mp hm
  obtain ⟨e, he, hdeclared, hstems⟩ := (stems_of_hierarchy hres m hmem).1
  obtain ⟨items, _, hitems, -, hbody⟩ := hstems b hcode
  obtain ⟨c, hc, hpair⟩ := List.mem_flatMap.mp he
  obtain ⟨src, hsrc, rfl⟩ := List.mem_map.mp hpair
  have hid : ({ m with body := none } : Method).id = _ := congrArg Method.id hdeclared
  exact ⟨classes, hparse, c, hc, src, hsrc, items, hitems, hid, exists_source hbody hs hjump⟩

/-! ## Other literals in a statement -/

/-- The first token of a statement is the same whatever its literals are, and it has one lexeme only. -/
theorem exists_first (f : Source.Literal → Source.Literal) (a : Action) :
    ∃ k ts ts', a.tokens = k :: ts ∧ (a.mapLiterals f).tokens = k :: ts' ∧ k.isVisible = true ∧
      ∀ n, k ≠ .int n := by
  cases a with
  | invoke result c => cases result <;> exact ⟨_, _, _, rfl, rfl, rfl, by simp⟩
  | assign target v =>
      cases target with
      | name x => exact ⟨_, _, _, rfl, rfl, rfl, by simp⟩
      | access a => cases a <;> exact ⟨_, _, _, rfl, rfl, rfl, by simp⟩
  | _ => exact ⟨_, _, _, rfl, rfl, rfl, by simp⟩

theorem received_mapLiterals {f : Source.Literal → Source.Literal} {a : Action} (ha : a.Received) :
    (a.mapLiterals f).Received := by
  cases a <;> exact ha

/-- The literals of a statement are among its tokens. -/
theorem mem_tokens_of_literals {n : Source.Literal} {a : Action} (h : n ∈ a.literals) :
    Token.int n ∈ a.tokens := by
  have hatom : ∀ {a : Atom}, n ∈ a.literals → Token.int n ∈ a.tokens := fun {a} h => by
    cases a <;> simp_all [Atom.literals, Atom.tokens]
  have haccess : ∀ {a : Access}, n ∈ a.literals → Token.int n ∈ a.tokens := fun {a} h => by
    cases a <;> simp_all [Access.literals, Access.tokens]
  cases a with
  | branch l op r label =>
      rcases List.mem_append.mp h with h | h <;> simp [Action.tokens, hatom h]
  | switch x cases default =>
      obtain ⟨c, hc, rfl⟩ := List.mem_map.mp h
      have hmem : Token.int c.1 ∈ cases.flatMap Source.caseTokens :=
        List.mem_flatMap.mpr ⟨c, hc, by simp [Source.caseTokens]⟩
      simp [Action.tokens, hmem]
  | invoke result c =>
      obtain ⟨a, ha, hn⟩ := List.mem_flatMap.mp h
      have hmem := mem_listed ha (hatom hn)
      simp [Action.tokens, Source.Call.tokens, Source.argTokens, hmem]
  | assign t v =>
      rcases List.mem_append.mp h with h | h
      · have hmem : Token.int n ∈ t.tokens := by
          cases t with
          | name x => simp [Target.literals] at h
          | access a => exact haccess h
        simp [Action.tokens, hmem]
      · have hmem : Token.int n ∈ v.tokens := by
          cases v with
          | atom a => exact hatom h
          | alloc t => simp [Source.Value.literals] at h
          | cast t a => simp [Source.Value.tokens, hatom h]
          | binary l op r =>
              rcases List.mem_append.mp h with h | h <;> simp [Source.Value.tokens, hatom h]
          | access a => exact haccess h
        simp [Action.tokens, hmem]
  | goto label => simp [Action.literals] at h
  | ret x => simp [Action.literals] at h
  | nop => simp [Action.literals] at h

theorem head_of_spells {k : Token} {ts : List Token} {s t : List Char} (hk : k.isVisible = true)
    (hint : ∀ n, k ≠ .int n) (h : Spells none (k :: ts) s t) : s.head? = k.text.head? := by
  obtain ⟨u, hnext, _⟩ := h
  obtain ⟨l, g, rfl, hlexes, _⟩ := (next_iff hk).mp hnext
  obtain ⟨c, cs, rfl, _⟩ := hlexes.exists_cons hk
  rw [← hlexes.eq_text hint]
  rfl

theorem bare_canonical (a : Action) :
    (a.mapLiterals canonical).mapLiterals Source.Literal.bare = a.mapLiterals Source.Literal.bare := by
  rw [Source.Action.mapLiterals_mapLiterals]
  rfl

/-- If no literal of a program is too long, none is when those of a statement are printed. -/
theorem isTooLong_fill {x : Source.Slot} {a : Action} (ha : ∀ k ∈ a.tokens, k.IsWritten)
    (hlong : ∀ n ∈ (x.fill a).flatMap Source.Class.literals, n.isTooLong = false) :
    ∀ n ∈ (x.fill (a.mapLiterals canonical)).flatMap Source.Class.literals, n.isTooLong = false := by
  intro n hn
  rcases Source.Slot.mem_literals_fill hn with hn | hn
  · rw [Source.Action.literals_mapLiterals] at hn
    obtain ⟨n, hmem, rfl⟩ := List.mem_map.mp hn
    exact isTooLong_canonical (ha _ (mem_tokens_of_literals hmem))
      (hlong n (Source.Slot.subset_literals_fill x a hmem))
  · exact hlong n hn

/-- **What a statement is written as may be put in its place**: it spells the statement with other
literals, and begins with the same character. -/
theorem spells_text {a : Action} {s : Stmt} {t ws after : List Char}
    (hspells : Spells none a.tokens t after) (h : sc.stmt pos a = .ok s) (hjump : s.isJump = false)
    (hws : Scanner.blank (ws ++ after) = some ws.length) :
    Spells none (a.mapLiterals canonical).tokens (s.text.toList ++ ';' :: (ws ++ after)) after ∧
      (s.text.toList ++ ';' :: (ws ++ after)).head? = t.head? := by
  obtain ⟨ts, htokens, hprints⟩ := prints_stmt hspells.isWritten h hjump
  have hspaced : Spaced [] (ws ++ after) after := ⟨ws, after, rfl, hws, rfl⟩
  obtain ⟨hrow, hsettled⟩ := hspaced.token (k := .punct ';') (l := [';']) ⟨rfl, by decide⟩ rfl
  obtain ⟨hnew, -⟩ := hprints ';' _ _ _ (by decide) ⟨[], _, rfl, hsettled, hrow⟩
  rw [← htokens] at hnew
  refine ⟨hnew, ?_⟩
  obtain ⟨k, us, us', hk, hk', hvisible, hint⟩ := exists_first canonical a
  rw [hk] at hspells
  rw [hk'] at hnew
  exact (head_of_spells hvisible hint hnew).trans (head_of_spells hvisible hint hspells).symm

end Resolve

namespace Grammar

/-- In a text that is read a stretch is the text of the statement with an index in the body of a method,
from behind its labels up to the next token: the semicolon and the blank space behind it belong to it. -/
structure IsStatement (text : List Char) (id : MethodId) (i : Nat) (before stmt after : List Char) :
    Prop where
  splits : text = before ++ (stmt ++ after)
  source : ∃ classes, parse text = .ok classes ∧ ∃ c ∈ classes, ∃ m ∈ c.methods, ∃ items,
    m.body = some items ∧ id = ⟨Resolve.classId c.name, m.subsig⟩ ∧
      ∃ src, (Resolve.statements items)[i]? = some src ∧ src.pos = before.length ∧
        Rule.Reads action ⟨before.length, stmt ++ after⟩ src.action ⟨before.length + stmt.length, after⟩

end Grammar

/-- **Printed statements are read again.** In a text that is read as a program, a statement that is not a
jump may be replaced by its written form with a semicolon, and with any blank space behind that: the
text is read as the same program, up to the lines of the statements. -/
theorem Program.exists_ofText_of_printed [Nesting] {text : List Char} {main source : Option String}
    {p : Program} {id : MethodId} {b : Body} {i : Nat} {s : Stmt} (hp : Program.ofText text main source = .ok p)
    (hb : p.hierarchy.body? id = some b) (hs : b.stmts[i]? = some s) (hjump : s.isJump = false) :
    ∃ before stmt after, IsStatement text id i before stmt after ∧
      ∀ ws, Scanner.blank (ws ++ after) = some ws.length →
        ∃ p', Program.ofText (before ++ (s.text.toList ++ ';' :: (ws ++ after))) main source = .ok p' ∧
          p'.unlined = p.unlined := by
  obtain ⟨classes, hparse, c, hc, m, hm, items, hitems, hid, src, sc, hsrc, hstmt⟩ :=
    Resolve.exists_source_of_ofText hp hb hs hjump
  have hlong := Program.not_tooLong_of_ofText hparse hp
  -- the statement has a stretch of the text, in which its written form is put
  obtain ⟨x, rfl, hpos⟩ := Source.Slot.exists_fill hc hm hitems (List.mem_of_getElem? hsrc)
  obtain ⟨before, stmt, after, htext, hlength, hreads, hspells, hreplace⟩ := exists_stretch hparse
  refine ⟨before, stmt, after, ⟨htext, _, hparse, c, hc, m, hm, items, hitems, hid, src, hsrc,
    hpos.symm.trans hlength.symm, hreads⟩, fun ws hws => ?_⟩
  obtain ⟨hnew, hhead⟩ := Resolve.spells_text hspells hstmt hjump hws
  have hreceived : src.action.Received := Source.Slot.received_fill (written_of_parse hparse)
  obtain ⟨read, hread, hsame⟩ :=
    hreplace _ _ (Resolve.received_mapLiterals hreceived) hnew hhead
  exact Program.exists_ofText_of_unplaced hp hparse hread hsame
    (Source.Slot.bare_fill (Resolve.bare_canonical _)) (Resolve.isTooLong_fill hspells.isWritten hlong)

/-- A text with a statement that is not written as it is printed. -/
def dividing : List Char :=
  "class A\x7bint f(int b)\x7bint c;c=007/-0;return c;\x7d\x7d".toList

set_option maxRecDepth 100000 in
theorem Program.exists_ofText_of_printed_dividing :
    ∃ p b s, Program.ofText dividing none none = .ok p ∧
      p.hierarchy.body? ⟨⟨"A", 0⟩, ⟨.primitive .int, "f", [.primitive .int]⟩⟩ = some b ∧
      b.stmts[0]? = some s ∧ s.isJump = false ∧ s.text = "c = 7 / 0" ∧
      ∃ before stmt after, IsStatement dividing
          ⟨⟨"A", 0⟩, ⟨.primitive .int, "f", [.primitive .int]⟩⟩ 0 before stmt after ∧
        ∀ ws, Scanner.blank (ws ++ after) = some ws.length →
          ∃ p', Program.ofText (before ++ (s.text.toList ++ ';' :: (ws ++ after))) none none = .ok p' ∧
            p'.unlined = p.unlined := by
  obtain ⟨text, htext, hread⟩ : ∃ text, dividing = text ∧
      ((Program.ofText text none none).toOption.any fun p =>
        (p.hierarchy.body? ⟨⟨"A", 0⟩, ⟨.primitive .int, "f", [.primitive .int]⟩⟩).any fun b =>
          b.stmts[0]?.any fun s => !s.isJump && s.text == "c = 7 / 0") = true :=
    ⟨_, String.toList_ofList, by decide +kernel⟩
  obtain ⟨p, hp, hread⟩ := (Option.any_eq_true _ _).mp hread
  obtain ⟨b, hb, hread⟩ := (Option.any_eq_true _ _).mp hread
  obtain ⟨s, hs, hread⟩ := (Option.any_eq_true _ _).mp hread
  obtain ⟨hjump, hshown⟩ := Bool.and_eq_true_iff.mp hread
  have hjump : s.isJump = false := by simpa using hjump
  have hp := Resolve.eq_ok_of_toOption hp
  rw [htext]
  exact ⟨p, b, s, hp, hb, hs, hjump, eq_of_beq hshown, Program.exists_ofText_of_printed hp hb hs hjump⟩

end TacFlow
