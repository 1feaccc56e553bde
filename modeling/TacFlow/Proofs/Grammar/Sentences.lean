import TacFlow.Proofs.Grammar.Terminals
import TacFlow.Proofs.Grammar.Yields

/-!
# Sentences

The tokens of a source tree, from the first to the last, with marks at the positions that the tree
holds. What a production reads is spelled by the tokens of its tree, so a text that is read is a row
of tokens from its beginning to its end.
-/

namespace TacFlow.Source

open Grammar (Token)

/-! ## Tokens of trees -/

/-- Parts with commas between them. -/
def listed {α : Type} (tokens : α → List Token) : List α → List Token
  | [] => []
  | a :: as => tokens a ++ as.flatMap fun b => .punct ',' :: tokens b

/-- An operand is one token. -/
def Atom.tokens : Atom → List Token
  | lit n => [.int n]
  | name x => [.ident x]

/-- The name of a method: constructors and class initializers have names that nothing else has. -/
def methodToken (x : String) : Token :=
  if x = "<clinit>" ∨ x = "<init>" then .init x else .ident x

/-- The tokens of the signature at a call. -/
def Callee.tokens (c : Callee) : List Token :=
  .punct '<' :: .name c.owner :: .punct ':' :: .type c.subsig.result :: methodToken c.subsig.name ::
    .punct '(' :: (listed (fun t => [.type t]) c.subsig.params ++ [.punct ')', .punct '>'])

/-- The keyword of a kind of call. -/
def callWord : CallKind → String
  | .static => "invokestatic"
  | .special => "invokespecial"
  | .virtual => "invokevirtual"
  | .interface => "invokeinterface"

/-- The tokens of a receiver. -/
def receiverTokens : Option String → List Token
  | none => []
  | some x => [.ident x, .punct '.']

/-- The tokens of the arguments of a call. -/
def argTokens (args : List Atom) : List Token :=
  .punct '(' :: (listed Atom.tokens args ++ [.punct ')'])

/-- The tokens of a call. -/
def Call.tokens (c : Call) : List Token :=
  .word (callWord c.kind) :: (receiverTokens c.receiver ++ (c.callee.tokens ++ argTokens c.args))

/-- The tokens of an access. -/
def Access.tokens : Access → List Token
  | element base index => .ident base :: .punct '[' :: (index.tokens ++ [.punct ']'])
  | field base name => [.ident base, .punct '.', .ident name]

/-- The tokens on the left of an assignment. -/
def Target.tokens : Target → List Token
  | name x => [.ident x]
  | access a => a.tokens

/-- The tokens on the right of an assignment. -/
def Value.tokens : Value → List Token
  | atom a => a.tokens
  | alloc t => [.word "new", .type t]
  | cast t operand => .punct '(' :: .type t :: .punct ')' :: operand.tokens
  | binary left op right => left.tokens ++ .op op :: right.tokens
  | access a => a.tokens

/-- The tokens of a jump to a label. -/
def jumpTokens (label : String) : List Token :=
  [.word "goto", .ident label, .punct ';']

/-- The tokens of one case of a switch. -/
def caseTokens (c : Literal × String) : List Token :=
  .word "case" :: .int c.1 :: .punct ':' :: jumpTokens c.2

/-- The tokens of the variable that takes the result of a call. -/
def resultTokens : Option String → List Token
  | none => []
  | some x => [.ident x, .punct '=']

/-- The tokens of a statement without its labels. -/
def Action.tokens : Action → List Token
  | branch left op right label =>
    .word "if" :: .punct '(' :: (left.tokens ++ .cond op :: (right.tokens ++
      .punct ')' :: jumpTokens label))
  | goto label => jumpTokens label
  | switch subject cases default =>
    .word "switch" :: .punct '(' :: .ident subject :: .punct ')' :: .punct '\x7b' ::
      (cases.flatMap caseTokens ++ .word "default" :: .punct ':' :: (jumpTokens default ++
        [.punct '\x7d']))
  | ret value => .word "return" :: (value.toList.map .ident ++ [.punct ';'])
  | nop => [.word "nop", .punct ';']
  | invoke result call => resultTokens result ++ (call.tokens ++ [.punct ';'])
  | assign target value => target.tokens ++ .punct '=' :: (value.tokens ++ [.punct ';'])

/-- The tokens of the labels of a statement. -/
def labelTokens (labels : List String) : List Token :=
  labels.flatMap fun x => [.ident x, .punct ':']

/-- The tokens of a statement. -/
def Stmt.tokens (s : Stmt) : List Token :=
  labelTokens s.labels ++ .mark s.pos :: s.action.tokens

/-- The tokens of a part of a body. -/
def Item.tokens : Item → List Token
  | locals type names pos =>
    .mark pos :: .type type :: (listed (fun x => [.ident x]) names ++ [.punct ';'])
  | stmt s => s.tokens

/-- The tokens of the code of a method, or of the semicolon in its place. -/
def bodyTokens : Option (List Item) → List Token
  | none => [.punct ';']
  | some items => .punct '\x7b' :: (items.flatMap Item.tokens ++ [.punct '\x7d'])

/-- The keyword of a word in front of a method. -/
def Modifier.word : Modifier → String
  | staticWord => "static"
  | abstractWord => "abstract"
  | privateWord => "private"
  | publicWord => "public"

/-- The tokens of a parameter. -/
def paramTokens (p : Ty × Option String) : List Token :=
  .type p.1 :: p.2.toList.map .ident

/-- The tokens of a method declaration. -/
def Method.tokens (m : Method) : List Token :=
  .mark m.pos :: (m.modifiers.map (.word ·.word) ++ .type m.result :: methodToken m.name ::
    .punct '(' :: (listed paramTokens m.params ++ .punct ')' :: bodyTokens m.body))

/-- The tokens of a list of supertypes. -/
def clauseTokens (w : String) (names : List String) : List Token :=
  if names.isEmpty then [] else .word w :: listed (fun x => [.name x]) names

/-- The keyword of a declaration of an interface or of a class. -/
def kindWord (isInterface : Bool) : String :=
  if isInterface then "interface" else "class"

/-- The tokens of a class or interface declaration. -/
def Class.tokens (c : Class) : List Token :=
  .mark c.pos :: ((if c.isAbstract then [.word "abstract"] else []) ++
    .word (kindWord c.isInterface) :: .name c.name ::
      (clauseTokens "extends" c.extended ++ (clauseTokens "implements" c.implemented ++
        .punct '\x7b' :: (c.methods.flatMap Method.tokens ++ [.punct '\x7d']))))

/-- The tokens of a whole program. -/
def programTokens (classes : List Class) : List Token :=
  classes.flatMap Class.tokens

end TacFlow.Source

namespace TacFlow.Grammar

open Source Rule Scanner

variable {c d e : Cursor} {ts : List Token}

/-! ## What productions spell -/

/-- Parts with commas between them. -/
theorem spelled_separated {α : Type} {part : Rule α} {tokens : α → List Token}
    (hpart : ∀ c a d, Reads part c a d → Spelled (tokens a) c d) {as : List α}
    (h : Reads (separated part) c as d) : Spelled (listed tokens as) c d := by
  unfold separated at h
  simp only [reads_bind, reads_pure] at h
  obtain ⟨a, c', ha, rest, _, hrest, rfl, rfl⟩ := h
  refine (hpart _ _ _ ha).append (spelled_of_runs ?_ (runs_of_reads_many hrest))
  intro c b d hb
  obtain ⟨_, c', hcomma, hb⟩ := reads_bind.mp hb
  exact ((reads_punct rfl (by decide)).mp hcomma).cons (hpart _ _ _ hb)

theorem spelled_atom {a : Atom} (h : Reads atom c a d) : Spelled a.tokens c d := by
  unfold atom at h
  simp only [reads_named, reads_orElse, reads_bind, reads_pure] at h
  rcases h with ⟨n, _, hn, rfl, rfl⟩ | ⟨_, x, _, hx, rfl, rfl⟩
  · exact reads_intLit.mp hn
  · exact reads_ident.mp hx

theorem spelled_optional {α : Type} {r : Rule (List α)} {tokens : α → List Token}
    (hr : ∀ c as d, Reads r c as d → Spelled (listed tokens as) c d) {o : Option (List α)}
    (h : Reads (optional r) c o d) : Spelled (listed tokens (o.getD [])) c d := by
  rcases reads_optional.mp h with ⟨rfl, rfl, _⟩ | ⟨as, rfl, _, has⟩
  · exact .nil
  · exact hr _ _ _ has

theorem spelled_methodName {x : String} (h : Reads methodName c x d) : Spelled [methodToken x] c d := by
  unfold methodName at h
  simp only [reads_named, reads_orElse] at h
  rcases h with h | ⟨_, h⟩
  · have hspelled := reads_initName.mp h
    obtain ⟨_, _, _, ⟨_, hx⟩, _⟩ := spells_singleton.mp hspelled.1
    rw [methodToken, if_pos hx]
    exact hspelled
  · have hspelled := reads_ident.mp h
    obtain ⟨_, _, _, ⟨rfl, hname, _⟩, _⟩ := spells_singleton.mp hspelled.1
    rw [methodToken, if_neg]
    · exact hspelled
    · rintro (rfl | rfl)
      · exact absurd hname.1 (by decide)
      · exact absurd hname.1 (by decide)

/-- A punctuation character whose blank space is read by a rule of its own. -/
theorem spelled_literal {p : Char} {w : String} {u v : Unit} (hw : w.toList = [p])
    (hp : p ∈ punctuation) (h : Reads (literal w) c u d) (hblank : Reads blank d v e) :
    Spelled [.punct p] c e :=
  (reads_punct hw hp).mp (reads_named.mpr (reads_bind.mpr ⟨_, _, h, hblank⟩))

theorem spelled_typeList {ts : List Ty} (h : Reads typeList c ts d) :
    Spelled (listed (fun t => [.type t]) ts) c d := by
  unfold typeList at h
  rw [reads_named] at h
  exact spelled_separated (fun _ _ _ => reads_type.mp) h

theorem spelled_callee {f : Callee} (h : Reads callee c f d) : Spelled f.tokens c d := by
  unfold callee at h
  simp only [reads_named, reads_bind, reads_pure] at h
  obtain ⟨_, _, hopen, _, _, hblank, owner, _, howner, _, _, hblank', _, _, hcolon, result, _,
    hresult, name, _, hname, _, _, hparen, params, _, hparams, _, _, hparen', _, _, hclose, _, _,
    hblank'', rfl, rfl⟩ := h
  refine (spelled_literal rfl (by decide) hopen hblank).cons ?_
  refine (spelled_name.mpr ⟨_, howner, hblank'⟩).cons ?_
  refine ((reads_punct rfl (by decide)).mp hcolon).cons ((reads_type.mp hresult).cons ?_)
  refine (spelled_methodName hname).cons (((reads_punct rfl (by decide)).mp hparen).cons ?_)
  refine (spelled_optional (fun _ _ _ => spelled_typeList) hparams).append ?_
  exact ((reads_punct rfl (by decide)).mp hparen').cons
    (spelled_literal rfl (by decide) hclose hblank'')

theorem spelled_argList {args : List Atom} (h : Reads argList c args d) :
    Spelled (argTokens args) c d := by
  unfold argList at h
  simp only [reads_named, reads_bind, reads_pure] at h
  obtain ⟨_, _, hopen, o, _, hargs, _, _, hclose, rfl, rfl⟩ := h
  refine ((reads_punct rfl (by decide)).mp hopen).cons ?_
  refine (spelled_optional (fun _ _ _ => spelled_separated fun _ _ _ => spelled_atom) hargs).append ?_
  exact (reads_punct rfl (by decide)).mp hclose

theorem spelled_instanceKind {k : CallKind} (h : Reads instanceKind c k d) :
    Spelled [.word (callWord k)] c d := by
  unfold instanceKind at h
  simp only [reads_named, reads_orElse, reads_bind, reads_pure] at h
  rcases h with ⟨_, _, h, rfl, rfl⟩ | ⟨_, ⟨_, _, h, rfl, rfl⟩ | ⟨_, _, _, h, rfl, rfl⟩⟩
  · exact (reads_word (by decide)).mp h
  · exact (reads_word (by decide)).mp h
  · exact (reads_word (by decide)).mp h

theorem spelled_call {k : Source.Call} (h : Reads call c k d) : Spelled k.tokens c d := by
  unfold call at h
  simp only [reads_named, reads_orElse] at h
  rcases h with h | ⟨_, h⟩
  · unfold staticCall at h
    simp only [reads_named, reads_bind, reads_pure] at h
    obtain ⟨_, _, hword, target, _, htarget, args, _, hargs, rfl, rfl⟩ := h
    exact ((reads_word (by decide)).mp hword).cons
      ((spelled_callee htarget).append (spelled_argList hargs))
  · unfold instanceCall at h
    simp only [reads_named, reads_bind, reads_pure] at h
    obtain ⟨kind, _, hkind, x, _, hx, _, _, hdot, target, _, htarget, args, _, hargs, rfl, rfl⟩ := h
    refine (spelled_instanceKind hkind).cons ((reads_ident.mp hx).cons ?_)
    refine ((reads_punct rfl (by decide)).mp hdot).cons ?_
    exact (spelled_callee htarget).append (spelled_argList hargs)

theorem spelled_elementRef {a : Access} (h : Reads elementRef c a d) : Spelled a.tokens c d := by
  unfold elementRef at h
  simp only [reads_named, reads_bind, reads_pure] at h
  obtain ⟨base, _, hbase, _, _, hopen, index, _, hindex, _, _, hclose, rfl, rfl⟩ := h
  refine (reads_ident.mp hbase).cons (((reads_punct rfl (by decide)).mp hopen).cons ?_)
  exact (spelled_atom hindex).append ((reads_punct rfl (by decide)).mp hclose)

theorem spelled_fieldRef {a : Access} (h : Reads fieldRef c a d) : Spelled a.tokens c d := by
  unfold fieldRef at h
  simp only [reads_named, reads_bind, reads_pure] at h
  obtain ⟨base, _, hbase, _, _, hdot, name, _, hname, rfl, rfl⟩ := h
  exact (reads_ident.mp hbase).cons
    (((reads_punct rfl (by decide)).mp hdot).cons (reads_ident.mp hname))

/-- Behind an operator an operand is ahead, so no comment is opened by a slash. -/
theorem head_ne_star_of_atom {a : Atom} (h : Reads atom c a d) : c.rest.head? ≠ some '*' := by
  intro hstar
  obtain ⟨rest, hrest⟩ := List.head?_eq_some_iff.mp hstar
  have hlead : lead c.rest = .sign '*' := hrest ▸ lead_of_sign (by decide)
  have hspelled := (spelled_atom h).1
  cases a with
  | lit n =>
      have hint := (spells_singleton.mp hspelled).leads rfl
      rw [hlead] at hint
      rcases hint with hint | hint <;> exact absurd hint (by decide)
  | name x =>
      have hname := (spells_singleton.mp hspelled).leads rfl
      rw [hlead] at hname
      cases hname

theorem settled_of_atom {a : Atom} (h : Reads atom c a d) : Settled d.rest := by
  have hspelled := (spelled_atom h).1
  cases a with
  | lit n => exact (spells_singleton.mp hspelled).settled rfl
  | name x => exact (spells_singleton.mp hspelled).settled rfl

theorem spelled_binaryValue {v : Source.Value} (h : Reads binaryValue c v d) :
    Spelled v.tokens c d := by
  unfold binaryValue at h
  simp only [reads_named, reads_bind, reads_pure] at h
  obtain ⟨left, _, hleft, op, _, hop, right, _, hright, rfl, rfl⟩ := h
  refine (spelled_atom hleft).append (Spelled.cons ?_ (spelled_atom hright))
  exact spelled_of_reads_binOp hop (settled_of_atom hleft) (head_ne_star_of_atom hright)

theorem spelled_value {v : Source.Value} (h : Reads value c v d) : Spelled v.tokens c d := by
  unfold value allocation castValue at h
  simp only [reads_named, reads_orElse, reads_bind, reads_pure] at h
  rcases h with ⟨_, _, hword, t, _, ht, rfl, rfl⟩ | ⟨-, h⟩
  · exact ((reads_word (by decide)).mp hword).cons (reads_type.mp ht)
  rcases h with ⟨_, _, hopen, t, _, ht, _, _, hclose, a, _, ha, rfl, rfl⟩ | ⟨-, h⟩
  · refine ((reads_punct rfl (by decide)).mp hopen).cons ((reads_type.mp ht).cons ?_)
    exact ((reads_punct rfl (by decide)).mp hclose).cons (spelled_atom ha)
  rcases h with h | ⟨-, ⟨a, _, h, rfl, rfl⟩ | ⟨-, ⟨a, _, h, rfl, rfl⟩ | ⟨-, a, _, h, rfl, rfl⟩⟩⟩
  · exact spelled_binaryValue h
  · exact spelled_elementRef h
  · exact spelled_fieldRef h
  · exact spelled_atom h

theorem spelled_target {t : Target} (h : Reads target c t d) : Spelled t.tokens c d := by
  unfold target at h
  simp only [reads_named, reads_orElse, reads_bind, reads_pure] at h
  rcases h with ⟨a, _, h, rfl, rfl⟩ | ⟨-, ⟨a, _, h, rfl, rfl⟩ | ⟨-, x, _, h, rfl, rfl⟩⟩
  · exact spelled_elementRef h
  · exact spelled_fieldRef h
  · exact reads_ident.mp h

theorem spelled_jump {x : String} (h : Reads jump c x d) : Spelled (jumpTokens x) c d := by
  unfold jump at h
  simp only [reads_bind, reads_pure] at h
  obtain ⟨_, _, hword, x, _, hx, _, _, hsemi, rfl, rfl⟩ := h
  exact ((reads_word (by decide)).mp hword).cons
    ((reads_ident.mp hx).cons ((reads_punct rfl (by decide)).mp hsemi))

theorem spelled_ifStmt {a : Action} (h : Reads ifStmt c a d) : Spelled a.tokens c d := by
  unfold ifStmt at h
  simp only [reads_named, reads_bind, reads_pure] at h
  obtain ⟨_, _, hword, _, _, hopen, left, _, hleft, op, _, hop, right, _, hright, _, _, hclose, label,
    _, hlabel, rfl, rfl⟩ := h
  refine ((reads_word (by decide)).mp hword).cons (((reads_punct rfl (by decide)).mp hopen).cons ?_)
  refine (spelled_atom hleft).append ((reads_condOp.mp hop).cons ((spelled_atom hright).append ?_))
  exact ((reads_punct rfl (by decide)).mp hclose).cons (spelled_jump hlabel)

theorem spelled_caseClause {k : Literal × String} (h : Reads caseClause c k d) :
    Spelled (caseTokens k) c d := by
  unfold caseClause at h
  simp only [reads_named, reads_bind, reads_pure] at h
  obtain ⟨_, _, hword, n, _, hn, _, _, hcolon, label, _, hlabel, rfl, rfl⟩ := h
  refine ((reads_word (by decide)).mp hword).cons ((reads_intLit.mp hn).cons ?_)
  exact ((reads_punct rfl (by decide)).mp hcolon).cons (spelled_jump hlabel)

theorem spelled_switchStmt {a : Action} (h : Reads switchStmt c a d) : Spelled a.tokens c d := by
  unfold switchStmt defaultClause at h
  simp only [reads_named, reads_bind, reads_pure] at h
  obtain ⟨_, _, hword, _, _, hopen, x, _, hx, _, _, hclose, _, _, hbrace, cases, _, hcases, label, _,
    ⟨_, _, hdefault, _, _, hcolon, hlabel⟩, _, _, hbrace', rfl, rfl⟩ := h
  refine ((reads_word (by decide)).mp hword).cons (((reads_punct rfl (by decide)).mp hopen).cons ?_)
  refine (reads_ident.mp hx).cons (((reads_punct rfl (by decide)).mp hclose).cons ?_)
  refine ((reads_punct rfl (by decide)).mp hbrace).cons ?_
  refine (spelled_of_runs (fun _ _ _ => spelled_caseClause) (runs_of_reads_many hcases)).append ?_
  refine ((reads_word (by decide)).mp hdefault).cons ?_
  refine ((reads_punct rfl (by decide)).mp hcolon).cons ((spelled_jump hlabel).append ?_)
  exact (reads_punct rfl (by decide)).mp hbrace'

theorem spelled_returnStmt {a : Action} (h : Reads returnStmt c a d) : Spelled a.tokens c d := by
  unfold returnStmt at h
  simp only [reads_named, reads_bind, reads_pure] at h
  obtain ⟨_, _, hword, x, _, hx, _, _, hsemi, rfl, rfl⟩ := h
  have hsemi := (reads_punct rfl (by decide)).mp hsemi
  refine ((reads_word (by decide)).mp hword).cons (Spelled.append ?_ hsemi)
  rcases reads_optional.mp hx with ⟨rfl, rfl, _⟩ | ⟨x, rfl, _, hx⟩
  · exact .nil
  · exact reads_ident.mp hx

theorem spelled_nopStmt {a : Action} (h : Reads nopStmt c a d) : Spelled a.tokens c d := by
  unfold nopStmt at h
  simp only [reads_named, reads_bind, reads_pure] at h
  obtain ⟨_, _, hword, _, _, hsemi, rfl, rfl⟩ := h
  exact ((reads_word (by decide)).mp hword).cons ((reads_punct rfl (by decide)).mp hsemi)

theorem spelled_invokeStmt {a : Action} (h : Reads invokeStmt c a d) : Spelled a.tokens c d := by
  unfold invokeStmt at h
  simp only [reads_named, reads_bind, reads_pure] at h
  obtain ⟨result, _, hresult, k, _, hk, _, _, hsemi, rfl, rfl⟩ := h
  refine Spelled.append ?_ ((spelled_call hk).append ((reads_punct rfl (by decide)).mp hsemi))
  rcases reads_optional.mp hresult with ⟨rfl, rfl, _⟩ | ⟨x, rfl, _, hx⟩
  · exact .nil
  · unfold resultAssign at hx
    simp only [reads_named, reads_bind, reads_pure] at hx
    obtain ⟨x, _, hx, _, _, heq, rfl, rfl⟩ := hx
    exact (reads_ident.mp hx).cons ((reads_punct rfl (by decide)).mp heq)

theorem spelled_assignStmt {a : Action} (h : Reads assignStmt c a d) : Spelled a.tokens c d := by
  unfold assignStmt at h
  simp only [reads_named, reads_bind, reads_pure] at h
  obtain ⟨t, _, ht, _, _, heq, v, _, hv, _, _, hsemi, rfl, rfl⟩ := h
  refine (spelled_target ht).append (((reads_punct rfl (by decide)).mp heq).cons ?_)
  exact (spelled_value hv).append ((reads_punct rfl (by decide)).mp hsemi)

/-- **What a statement says is spelled by its tokens.** -/
theorem spelled_action {a : Action} (h : Reads action c a d) : Spelled a.tokens c d := by
  unfold action gotoStmt at h
  simp only [reads_named, reads_orElse] at h
  rcases h with h | ⟨-, h | ⟨-, h | ⟨-, h | ⟨-, h | ⟨-, h | ⟨-, h⟩⟩⟩⟩⟩⟩
  · exact spelled_ifStmt h
  · obtain ⟨label, _, h, hpure⟩ := reads_bind.mp h
    obtain ⟨rfl, rfl⟩ := reads_pure.mp hpure
    exact spelled_jump h
  · exact spelled_switchStmt h
  · exact spelled_returnStmt h
  · exact spelled_nopStmt h
  · exact spelled_invokeStmt h
  · exact spelled_assignStmt h

theorem spelled_labels {labels : List String} (h : Reads (many label) c labels d) :
    Spelled (labelTokens labels) c d := by
  refine spelled_of_runs ?_ (runs_of_reads_many h)
  intro c x d hx
  unfold label at hx
  simp only [reads_named, reads_bind, reads_pure] at hx
  obtain ⟨x, _, hx, _, _, hcolon, rfl, rfl⟩ := hx
  exact (reads_ident.mp hx).cons ((reads_punct rfl (by decide)).mp hcolon)

theorem spelled_stmt {s : Source.Stmt} (h : Reads stmt c s d) : Spelled s.tokens c d := by
  unfold stmt at h
  simp only [reads_named, reads_bind, reads_pure, reads_position] at h
  obtain ⟨labels, _, hlabels, _, _, ⟨rfl, rfl⟩, a, _, ha, rfl, rfl⟩ := h
  exact (spelled_labels hlabels).append (spelled_mark.cons (spelled_action ha))

theorem spelled_item {i : Item} (h : Reads item c i d) : Spelled i.tokens c d := by
  unfold item localDecl at h
  simp only [reads_named, reads_orElse, reads_bind, reads_pure, reads_position] at h
  rcases h with ⟨_, _, ⟨rfl, rfl⟩, t, _, ht, names, _, hnames, _, _, hsemi, rfl, rfl⟩ |
    ⟨-, s, _, hs, rfl, rfl⟩
  · have hsemi := (reads_punct rfl (by decide)).mp hsemi
    refine spelled_mark.cons ((reads_type.mp ht).cons (Spelled.append ?_ hsemi))
    exact spelled_separated (fun _ _ _ => reads_ident.mp) hnames
  · exact spelled_stmt hs

theorem spelled_methodBody {b : Option (List Item)} (h : Reads methodBody c b d) :
    Spelled (bodyTokens b) c d := by
  unfold methodBody block at h
  simp only [reads_named, reads_orElse, reads_bind, reads_pure] at h
  rcases h with ⟨_, _, hsemi, rfl, rfl⟩ |
    ⟨-, items, _, ⟨_, _, hopen, items, _, hitems, _, _, hclose, rfl, rfl⟩, rfl, rfl⟩
  · exact (reads_punct rfl (by decide)).mp hsemi
  · refine ((reads_punct rfl (by decide)).mp hopen).cons ?_
    refine (spelled_of_runs (fun _ _ _ => spelled_item) (runs_of_reads_many hitems)).append ?_
    exact (reads_punct rfl (by decide)).mp hclose

theorem spelled_modifier {m : Modifier} (h : Reads modifier c m d) : Spelled [.word m.word] c d := by
  unfold modifier at h
  simp only [reads_named, reads_orElse, reads_bind, reads_pure] at h
  rcases h with ⟨_, _, h, rfl, rfl⟩ | ⟨-, ⟨_, _, h, rfl, rfl⟩ | ⟨-, ⟨_, _, h, rfl, rfl⟩ |
    ⟨-, _, _, h, rfl, rfl⟩⟩⟩
  · exact (reads_word (by decide)).mp h
  · exact (reads_word (by decide)).mp h
  · exact (reads_word (by decide)).mp h
  · exact (reads_word (by decide)).mp h

theorem spelled_param {p : Ty × Option String} (h : Reads param c p d) : Spelled (paramTokens p) c d := by
  unfold param at h
  simp only [reads_named, reads_bind, reads_pure] at h
  obtain ⟨t, _, ht, x, _, hx, rfl, rfl⟩ := h
  refine (reads_type.mp ht).cons ?_
  rcases reads_optional.mp hx with ⟨rfl, rfl, _⟩ | ⟨x, rfl, _, hx⟩
  · exact .nil
  · exact reads_ident.mp hx

theorem spelled_paramList {ps : List (Ty × Option String)} (h : Reads paramList c ps d) :
    Spelled (listed paramTokens ps) c d := by
  unfold paramList at h
  rw [reads_named] at h
  exact spelled_separated (fun _ _ _ => spelled_param) h

theorem spelled_method {m : Source.Method} (h : Reads method c m d) : Spelled m.tokens c d := by
  unfold method at h
  simp only [reads_named, reads_bind, reads_pure, reads_position] at h
  obtain ⟨_, _, ⟨rfl, rfl⟩, ms, _, hms, result, _, hresult, name, _, hname, _, _, hopen, ps, _, hps, _,
    _, hclose, body, _, hbody, rfl, rfl⟩ := h
  refine spelled_mark.cons (Spelled.append ?_ ((reads_type.mp hresult).cons ?_))
  · rw [List.map_eq_flatMap]
    exact spelled_of_runs (fun _ _ _ => spelled_modifier) (runs_of_reads_many hms)
  · refine (spelled_methodName hname).cons (((reads_punct rfl (by decide)).mp hopen).cons ?_)
    refine (spelled_optional (fun _ _ _ => spelled_paramList) hps).append ?_
    exact ((reads_punct rfl (by decide)).mp hclose).cons (spelled_methodBody hbody)

theorem spelled_classNames {names : List String} (h : Reads classNames c names d) :
    Spelled (listed (fun x => [.name x]) names) c d ∧ names.isEmpty = false := by
  refine ⟨spelled_separated ?_ h, ?_⟩
  · intro c x d hx
    simp only [reads_bind, reads_pure] at hx
    obtain ⟨x, _, hx, _, _, hblank, rfl, rfl⟩ := hx
    exact spelled_name.mpr ⟨_, hx, hblank⟩
  · unfold classNames separated at h
    simp only [reads_bind, reads_pure] at h
    obtain ⟨_, _, _, _, _, _, rfl, _⟩ := h
    rfl

/-- The classes behind a keyword, or none. -/
theorem spelled_clause {w : String} (hw : w ∈ keywords) {o : Option (List String)}
    (h : Reads (optional (named do word w; classNames)) c o d) :
    Spelled (clauseTokens w (o.getD [])) c d := by
  rcases reads_optional.mp h with ⟨rfl, rfl, _⟩ | ⟨names, rfl, _, h⟩
  · exact .nil
  · simp only [reads_named, reads_bind] at h
    obtain ⟨_, _, hword, hnames⟩ := h
    obtain ⟨hlist, hne⟩ := spelled_classNames hnames
    rw [Option.getD_some, clauseTokens, hne]
    exact ((reads_word hw).mp hword).cons hlist

theorem spelled_abstractWord {o : Option Unit} (h : Reads (optional (word "abstract")) c o d) :
    Spelled (if o.isSome then [.word "abstract"] else []) c d := by
  rcases reads_optional.mp h with ⟨rfl, rfl, _⟩ | ⟨_, rfl, _, h⟩
  · exact .nil
  · exact (reads_word (by decide)).mp h

theorem spelled_classKind {b : Bool} (h : Reads classKind c b d) : Spelled [.word (kindWord b)] c d := by
  unfold classKind at h
  simp only [reads_named, reads_orElse, reads_bind, reads_pure] at h
  rcases h with ⟨_, _, h, rfl, rfl⟩ | ⟨-, _, _, h, rfl, rfl⟩
  · exact (reads_word (by decide)).mp h
  · exact (reads_word (by decide)).mp h

theorem spelled_classDecl {k : Source.Class} (h : Reads classDecl c k d) : Spelled k.tokens c d := by
  unfold classDecl at h
  simp only [reads_named, reads_bind, reads_pure, reads_position] at h
  obtain ⟨_, _, ⟨rfl, rfl⟩, abstract, _, habstract, isInterface, _, hkind, name, _, hname, _, _, hblank,
    extended, _, hextended, implemented, _, himplemented, _, _, hopen, methods, _, hmethods, _, _, hclose,
    rfl, rfl⟩ := h
  refine spelled_mark.cons ((spelled_abstractWord habstract).append ((spelled_classKind hkind).cons ?_))
  refine (spelled_name.mpr ⟨_, hname, hblank⟩).cons ?_
  refine (spelled_clause (by decide) hextended).append ?_
  refine (spelled_clause (by decide) himplemented).append ?_
  refine ((reads_punct rfl (by decide)).mp hopen).cons ?_
  refine (spelled_of_runs (fun _ _ _ => spelled_method) (runs_of_reads_many hmethods)).append ?_
  exact (reads_punct rfl (by decide)).mp hclose

theorem reads_endOfText {u : Unit} : Reads endOfText c u d ↔ c.rest = [] ∧ d = c := by
  have hresult : (endOfText c).result = if c.rest.isEmpty then some ((), c) else none := by
    refine result_named.trans ?_
    split <;> rfl
  rw [Reads, hresult]
  cases c.rest <;> simp [eq_comm]

theorem parse_eq_ok {text : List Char} {classes : List Source.Class} :
    parse text = .ok classes ↔ ∃ d, Reads program ⟨0, text⟩ classes d := by
  unfold parse Reads
  split
  · rename_i n read c hread
    simp [hread, eq_comm]
  · rename_i n hread
    simp [hread]

/-- **A text that is read is blank space and the tokens of its classes.** -/
theorem spells_of_parse {text : List Char} {classes : List Source.Class}
    (h : parse text = .ok classes) : ∃ g s, text = g ++ s ∧ Scanner.blank (g ++ s) = some g.length ∧
      Spells (some text.length) (programTokens classes) s [] := by
  obtain ⟨d, hread⟩ := parse_eq_ok.mp h
  unfold program at hread
  simp only [reads_named, reads_bind, reads_pure, reads_endOfText] at hread
  obtain ⟨_, c, hblank, classes, d, hclasses, _, _, ⟨hempty, rfl⟩, rfl, rfl⟩ := hread
  obtain ⟨g, hg, hblank⟩ := reads_blank.mp hblank
  have hspelled := spelled_of_runs (fun _ _ _ => spelled_classDecl) (runs_of_reads_many hclasses)
  have htext : text = g ++ c.rest := hg.1
  have hlength : c.pos + c.rest.length = text.length := by
    rw [htext, hg.2, List.length_append, Nat.zero_add]
  refine ⟨g, c.rest, htext, hblank, ?_⟩
  rw [← hempty, ← hlength]
  exact hspelled.1

end TacFlow.Grammar
