import Mathlib.Data.List.Forall2
import TacFlow.Program.Resolve
import TacFlow.Proofs.Code.Equality
import TacFlow.Proofs.Code.Shape
import TacFlow.Proofs.Flow.Graph

/-!
# Bodies of programs

What is known of a method body because it was read from a text: every jump has its targets and they
are positions of the body, and the right-hand side of an assignment is a single operation on
variables and literals, which is not a call.

Every body enters the hierarchy through `Resolve.body`, so these are facts about that function.
-/

namespace TacFlow

/-- What every body is like that was read from a text. -/
structure Body.WellFormed (b : Body) : Prop where
  /-- Every jump has its targets. -/
  linked : b.Linked
  /-- Every assigned value is flat. -/
  flat {s : Stmt} : s ∈ b.stmts → s.isFlat = true

/-- A method body of a program that was read from a text. -/
def Body.Parsed [Nesting] (b : Body) : Prop :=
  ∃ text main source p, Program.ofText text main source = .ok p ∧
    ∃ m ∈ p.hierarchy.declaredMethods, m.body = some b

namespace Resolve

/-! ## Steps that may fail -/

section

variable {ε α β : Type}

theorem bind_eq_ok {x : Except ε α} {f : α → Except ε β} {b : β} :
    (x >>= f) = .ok b ↔ ∃ a, x = .ok a ∧ f a = .ok b := by
  cases x with
  | error e =>
      constructor
      · intro h
        cases h
      · rintro ⟨_, hx, _⟩
        cases hx
  | ok a =>
      constructor
      · exact fun h => ⟨a, rfl, h⟩
      · rintro ⟨_, hx, h⟩
        cases hx
        exact h

theorem eq_ok_of_toOption {x : Except ε α} {a : α} (h : x.toOption = some a) : x = .ok a := by
  cases x with
  | error e => exact absurd h (by simp [Except.toOption])
  | ok b => exact congrArg Except.ok (Option.some.inj h)

theorem forall₂_of_mapM {f : α → Except ε β} {as : List α} {bs : List β}
    (h : as.mapM f = .ok bs) : List.Forall₂ (fun a b => f a = .ok b) as bs := by
  induction as generalizing bs with
  | nil => cases h; exact .nil
  | cons a as ih =>
      rw [List.mapM_cons] at h
      obtain ⟨b, hb, h⟩ := bind_eq_ok.mp h
      obtain ⟨bs', hbs, h⟩ := bind_eq_ok.mp h
      cases h
      exact .cons hb (ih hbs)

theorem mapM_eq_ok {f : α → Except ε β} {as : List α} {bs : List β} :
    as.mapM f = .ok bs ↔ List.Forall₂ (fun a b => f a = .ok b) as bs := by
  refine ⟨forall₂_of_mapM, fun h => ?_⟩
  induction h with
  | nil => rfl
  | cons hab _ ih => rw [List.mapM_cons, hab, ih]; rfl

/-- The first of some elements that has a property, behind elements that have another one, is the first of
them all or stands further back. -/
theorem exists_first_cons {P Q : α → Prop} {x : α} {as : List α} :
    (∃ before a after, x :: as = before ++ a :: after ∧ (∀ y ∈ before, Q y) ∧ P a) ↔
      P x ∨ Q x ∧ ∃ before a after, as = before ++ a :: after ∧ (∀ y ∈ before, Q y) ∧ P a := by
  constructor
  · rintro ⟨before, a, after, has, hbefore, ha⟩
    cases before with
    | nil =>
        obtain ⟨rfl, -⟩ := List.cons.inj has
        exact Or.inl ha
    | cons y before =>
        obtain ⟨rfl, rfl⟩ := List.cons.inj has
        obtain ⟨hx, hrest⟩ := List.forall_mem_cons.mp hbefore
        exact Or.inr ⟨hx, before, a, after, rfl, hrest, ha⟩
  · rintro (hx | ⟨hx, before, a, after, rfl, hbefore, ha⟩)
    · exact ⟨[], x, as, rfl, by simp, hx⟩
    · exact ⟨x :: before, a, after, rfl, List.forall_mem_cons.mpr ⟨hx, hbefore⟩, ha⟩

/-- Steps in a row fail as the first of them does that fails. -/
theorem mapM_eq_error {f : α → Except ε β} {as : List α} {e : ε} :
    as.mapM f = .error e ↔ ∃ before a after, as = before ++ a :: after ∧
      (∀ x ∈ before, ∃ b, f x = .ok b) ∧ f a = .error e := by
  induction as with
  | nil => exact ⟨nofun, by simp⟩
  | cons x as ih =>
      rw [List.mapM_cons, exists_first_cons, ← ih]
      cases f x with
      | error e' => simp [bind, Except.bind]
      | ok b => cases as.mapM f <;> simp [bind, Except.bind, pure, Except.pure]

theorem exists_of_mem_mapM {f : α → Except ε β} {as : List α} {bs : List β}
    (h : as.mapM f = .ok bs) {b : β} (hb : b ∈ bs) : ∃ a ∈ as, f a = .ok b := by
  have hall := forall₂_of_mapM h
  clear h
  induction hall with
  | nil => exact absurd hb (by simp)
  | @cons a b' as bs hab _ ih =>
      rcases List.mem_cons.mp hb with rfl | hb
      · exact ⟨a, by simp, hab⟩
      · obtain ⟨a', ha', hq⟩ := ih hb
        exact ⟨a', List.mem_cons_of_mem a ha', hq⟩

/-- What holds at the start and is kept by every step holds at the end. -/
theorem foldlM_invariant {P : β → Prop} {f : β → α → Except ε β} {as : List α}
    (hstep : ∀ b, ∀ a ∈ as, ∀ b', P b → f b a = .ok b' → P b') {b b' : β} (hb : P b)
    (h : as.foldlM f b = .ok b') : P b' := by
  induction as generalizing b with
  | nil => cases h; exact hb
  | cons a as ih =>
      rw [List.foldlM_cons] at h
      obtain ⟨c, hc, h⟩ := bind_eq_ok.mp h
      exact ih (fun d e he => hstep d e (List.mem_cons_of_mem a he)) (hstep b a (by simp) c hb hc) h

end

/-! ## Statements -/

variable {o : Origin} {sc : Scope} {pos i : Nat} {labels : Labels}

theorem isAtom_of_atom {a : Source.Atom} {e : Expr} (h : sc.atom pos a = .ok e) :
    e.isAtom = true := by
  cases a with
  | lit n => cases h; rfl
  | name x =>
      obtain ⟨v, _, h⟩ := bind_eq_ok.mp h
      cases h; rfl

theorem isFlat_of_isAtom {e : Expr} (h : e.isAtom = true) : e.isFlat = true := by
  unfold Expr.isAtom at h
  split at h
  · rfl
  · rfl
  · exact absurd h (by simp)

theorem isFlat_of_access {a : Source.Access} {p : Place} (h : sc.access pos a = .ok p) :
    p.toExpr.isFlat = true := by
  cases a with
  | element base index =>
      obtain ⟨x, _, h⟩ := bind_eq_ok.mp h
      obtain ⟨e, he, h⟩ := bind_eq_ok.mp h
      cases h
      exact isAtom_of_atom he
  | field base name =>
      simp only [Scope.access] at h
      split at h
      · cases h; rfl
      · split at h
        · cases h; rfl
        · exact absurd h (by simp [Origin.reject])

theorem isFlat_of_value {v : Source.Value} {e : Expr} (h : sc.value pos v = .ok e) :
    e.isFlat = true := by
  cases v with
  | atom a => exact isFlat_of_isAtom (isAtom_of_atom h)
  | alloc t => cases h; rfl
  | cast t a =>
      obtain ⟨e, he, h⟩ := bind_eq_ok.mp h
      cases h
      exact isAtom_of_atom he
  | binary l op r =>
      obtain ⟨el, hl, h⟩ := bind_eq_ok.mp h
      obtain ⟨er, hr, h⟩ := bind_eq_ok.mp h
      cases h
      simp [Expr.isFlat, isAtom_of_atom hl, isAtom_of_atom hr]
  | access a =>
      obtain ⟨p, hp, h⟩ := bind_eq_ok.mp h
      cases h
      exact isFlat_of_access hp

/-- Every label marks a statement. -/
theorem lt_of_mem_collectLabels {stmts : List Source.Stmt}
    (h : collectLabels o stmts = .ok labels) : ∀ e ∈ labels, e.2 < stmts.length := by
  refine foldlM_invariant (P := fun ls : Labels => ∀ e ∈ ls, e.2 < stmts.length) ?_ (by simp) h
  rintro ls ⟨s, i⟩ hs ls' hls hstep
  have hi : i < stmts.length := by
    obtain ⟨hi, _⟩ := List.getElem?_eq_some_iff.mp (List.mk_mem_zipIdx_iff_getElem?.mp hs)
    exact hi
  refine foldlM_invariant (P := fun ls : Labels => ∀ e ∈ ls, e.2 < stmts.length) ?_ hls hstep
  intro ks name _ ks' hks hname
  split at hname
  · exact absurd hname (by simp [Origin.reject])
  · cases hname
    intro e he
    rcases List.mem_append.mp he with he | he
    · exact hks e he
    · rw [List.mem_singleton.mp he]; exact hi

theorem lt_of_findLabel {n : Nat} (hl : ∀ e ∈ labels, e.2 < n) {name : String}
    (h : findLabel o labels pos name = .ok i) : i < n := by
  unfold findLabel at h
  split at h
  · rename_i hf
    cases h
    exact hl _ (List.mem_of_find?_eq_some hf)
  · exact absurd h (by simp [Origin.reject])

/-- **A statement is flat, and once it is linked it has its targets.** -/
theorem linkTargets_ok {n : Nat} (hl : ∀ e ∈ labels, e.2 < n) {src : Source.Stmt} {s s' : Stmt}
    (hs : sc.stmt src.pos src.action = .ok s) (h : linkTargets o labels src s = .ok s') :
    s'.isFlat = true ∧ s'.isLoose = false ∧ ∀ t ∈ s'.targets, t < n := by
  unfold linkTargets at h
  cases ha : src.action with
  | branch l op r label =>
      rw [ha] at hs h
      obtain ⟨_, _, hs⟩ := bind_eq_ok.mp hs
      obtain ⟨_, _, hs⟩ := bind_eq_ok.mp hs
      cases hs
      obtain ⟨i, hi, h⟩ := bind_eq_ok.mp h
      cases h
      exact ⟨rfl, rfl, by simpa [Stmt.targets] using lt_of_findLabel hl hi⟩
  | goto label =>
      rw [ha] at hs h
      cases hs
      obtain ⟨i, hi, h⟩ := bind_eq_ok.mp h
      cases h
      exact ⟨rfl, rfl, by simpa [Stmt.targets] using lt_of_findLabel hl hi⟩
  | switch x cases' default =>
      rw [ha] at hs h
      obtain ⟨_, _, hs⟩ := bind_eq_ok.mp hs
      cases hs
      obtain ⟨cs, hcs, h⟩ := bind_eq_ok.mp h
      obtain ⟨i, hi, h⟩ := bind_eq_ok.mp h
      cases h
      refine ⟨rfl, rfl, ?_⟩
      intro t ht
      rcases List.mem_append.mp ht with ht | ht
      · obtain ⟨c, hc, rfl⟩ := List.mem_map.mp ht
        obtain ⟨⟨n, label⟩, _, hq⟩ := exists_of_mem_mapM hcs hc
        obtain ⟨j, hj, hq⟩ := bind_eq_ok.mp hq
        cases hq
        exact lt_of_findLabel hl hj
      · have : t = i := by simpa using ht
        exact this ▸ lt_of_findLabel hl hi
  | ret x =>
      rw [ha] at hs h
      obtain ⟨_, _, hs⟩ := bind_eq_ok.mp hs
      cases hs; cases h
      exact ⟨rfl, rfl, by simp [Stmt.targets]⟩
  | nop =>
      rw [ha] at hs h
      cases hs; cases h
      exact ⟨rfl, rfl, by simp [Stmt.targets]⟩
  | invoke result c =>
      rw [ha] at hs h
      obtain ⟨_, _, hs⟩ := bind_eq_ok.mp hs
      obtain ⟨_, _, hs⟩ := bind_eq_ok.mp hs
      cases hs; cases h
      exact ⟨rfl, rfl, by simp [Stmt.targets]⟩
  | assign t v =>
      rw [ha] at hs h
      obtain ⟨_, _, hs⟩ := bind_eq_ok.mp hs
      obtain ⟨e, he, hs⟩ := bind_eq_ok.mp hs
      cases hs; cases h
      exact ⟨isFlat_of_value he, rfl, by simp [Stmt.targets]⟩

/-- **Every body that name resolution makes is well-formed.** -/
theorem wellFormed_body {h : Hierarchy} {id : MethodId} {m : Source.Method}
    {items : List Source.Item} {b : Body} (hb : body o h id m items = .ok b) : b.WellFormed := by
  obtain ⟨params, _, hb⟩ := bind_eq_ok.mp hb
  obtain ⟨scope, _, hb⟩ := bind_eq_ok.mp hb
  obtain ⟨labels, hlabels, hb⟩ := bind_eq_ok.mp hb
  obtain ⟨unlinked, hunlinked, hb⟩ := bind_eq_ok.mp hb
  obtain ⟨stmts, hstmts, hb⟩ := bind_eq_ok.mp hb
  cases hb
  have hpairs := List.forall₂_iff_zip.mp (forall₂_of_mapM hunlinked)
  -- linking neither adds nor drops a statement
  have hlength : stmts.length = (statements items).length := by
    rw [← (forall₂_of_mapM hstmts).length_eq, List.length_zip, hpairs.1, Nat.min_self]
  have hlt : ∀ e ∈ labels, e.2 < stmts.length := hlength ▸ lt_of_mem_collectLabels hlabels
  have hall : ∀ s ∈ stmts,
      s.isFlat = true ∧ s.isLoose = false ∧ ∀ t ∈ s.targets, t < stmts.length := by
    intro s hs
    obtain ⟨⟨src, u⟩, hmem, hlink⟩ := exists_of_mem_mapM hstmts hs
    exact linkTargets_ok hlt (hpairs.2 hmem) hlink
  exact ⟨⟨fun hs => (hall _ hs).2.1, fun hs ht => (hall _ hs).2.2 _ ht⟩, fun hs => (hall _ hs).1⟩

theorem isPlain_of_stmt {a : Source.Action} {s : Stmt} (h : sc.stmt pos a = .ok s) :
    s.isPlain = true := by
  cases a with
  | invoke result c =>
      obtain ⟨_, _, h⟩ := bind_eq_ok.mp h
      obtain ⟨call, hcall, h⟩ := bind_eq_ok.mp h
      cases h
      obtain ⟨_, _, hcall⟩ := bind_eq_ok.mp hcall
      dsimp only at hcall
      split at hcall
      · exact absurd hcall (by simp [Origin.reject, bind, Except.bind])
      obtain ⟨args, hargs, hcall⟩ := bind_eq_ok.mp hcall
      obtain ⟨_, _, hcall⟩ := bind_eq_ok.mp hcall
      cases hcall
      refine List.all_eq_true.mpr ?_
      intro e he
      obtain ⟨a, _, ha⟩ := exists_of_mem_mapM hargs he
      exact isAtom_of_atom ha
  | ret x =>
      obtain ⟨y, _, h⟩ := bind_eq_ok.mp h
      cases h
      cases y <;> rfl
  | branch l op r label =>
      obtain ⟨_, _, h⟩ := bind_eq_ok.mp h
      obtain ⟨_, _, h⟩ := bind_eq_ok.mp h
      cases h; rfl
  | goto label => cases h; rfl
  | switch x cases' default =>
      obtain ⟨_, _, h⟩ := bind_eq_ok.mp h
      cases h; rfl
  | nop => cases h; rfl
  | assign t v =>
      obtain ⟨_, _, h⟩ := bind_eq_ok.mp h
      obtain ⟨_, _, h⟩ := bind_eq_ok.mp h
      cases h; rfl

/-- Linking touches jumps only. -/
theorem isPlain_of_linkTargets {src : Source.Stmt} {s s' : Stmt} (hs : s.isPlain = true)
    (h : linkTargets o labels src s = .ok s') : s'.isPlain = true := by
  unfold linkTargets at h
  split at h
  · obtain ⟨_, _, h⟩ := bind_eq_ok.mp h
    cases h; rfl
  · obtain ⟨_, _, h⟩ := bind_eq_ok.mp h
    cases h; rfl
  · obtain ⟨_, _, h⟩ := bind_eq_ok.mp h
    obtain ⟨_, _, h⟩ := bind_eq_ok.mp h
    cases h; rfl
  · cases h; exact hs

/-- **Every body that name resolution makes passes and returns operands only.** -/
theorem isPlain_body {h : Hierarchy} {id : MethodId} {m : Source.Method}
    {items : List Source.Item} {b : Body} (hb : body o h id m items = .ok b) :
    ∀ s ∈ b.stmts, s.isPlain = true := by
  obtain ⟨params, _, hb⟩ := bind_eq_ok.mp hb
  obtain ⟨scope, _, hb⟩ := bind_eq_ok.mp hb
  obtain ⟨labels, _, hb⟩ := bind_eq_ok.mp hb
  obtain ⟨unlinked, hunlinked, hb⟩ := bind_eq_ok.mp hb
  obtain ⟨stmts, hstmts, hb⟩ := bind_eq_ok.mp hb
  cases hb
  intro s hs
  obtain ⟨⟨src, u⟩, hmem, hlink⟩ := exists_of_mem_mapM hstmts hs
  obtain ⟨a, _, ha⟩ := exists_of_mem_mapM hunlinked (List.of_mem_zip hmem).2
  exact isPlain_of_linkTargets (isPlain_of_stmt ha) hlink

/-! ## Hierarchies -/

/-- Every body in a hierarchy has a property. -/
def AllBodies (P : Body → Prop) (h : Hierarchy) : Prop :=
  ∀ c ∈ h.declared, ∀ m ∈ c.methods, ∀ b, m.body = some b → P b

variable {P : Body → Prop} {h h' : Hierarchy}

theorem allBodies_declare {c : ClassDecl} (hh : AllBodies P h) (hc : c.methods = []) :
    AllBodies P (h.declare c) := by
  intro d hd m hm b hb
  rcases List.mem_append.mp hd with hd | hd
  · exact hh d hd m hm b hb
  · rw [List.mem_singleton.mp hd, hc] at hm
    exact absurd hm (by simp)

theorem mem_of_mem_update {c d : ClassDecl} (hd : d ∈ (h.update c).declared) :
    d = c ∨ d ∈ h.declared := by
  obtain ⟨e, he, rfl⟩ := List.mem_map.mp hd
  split
  · exact Or.inl rfl
  · exact Or.inr he

theorem allBodies_update {c : ClassDecl} (hh : AllBodies P h)
    (hc : ∀ m ∈ c.methods, ∀ b, m.body = some b → P b) : AllBodies P (h.update c) := by
  intro d hd m hm b hb
  rcases mem_of_mem_update hd with rfl | hd
  · exact hc m hm b hb
  · exact hh d hd m hm b hb

theorem allBodies_setBody {b : Body} (hh : AllBodies P h) (hb : P b) :
    AllBodies P (setBody h b) := by
  intro d hd m hm b' hb'
  obtain ⟨e, he, rfl⟩ := List.mem_map.mp hd
  split at hm
  · obtain ⟨k, hk, rfl⟩ := List.mem_map.mp hm
    split at hb'
    · cases hb'; exact hb
    · exact hh e he k hk b' hb'
  · exact hh e he m hm b' hb'

theorem allBodies_declareClasses {classes : List Source.Class}
    (hh : declareClasses o classes = .ok h) : AllBodies P h := by
  have hempty : AllBodies P Hierarchy.empty := by
    intro c hc
    exact absurd hc (by simp [Hierarchy.empty])
  refine foldlM_invariant (P := AllBodies P) ?_ hempty hh
  intro k c _ k' hk hstep
  split at hstep
  · exact absurd hstep (by simp [Origin.reject])
  · cases hstep
    exact allBodies_declare hk rfl

theorem allBodies_linkSupertypes {c : Source.Class} (hh : AllBodies P h)
    (hstep : linkSupertypes o h c = .ok h') : AllBodies P h' := by
  unfold linkSupertypes at hstep
  obtain ⟨extended, _, hstep⟩ := bind_eq_ok.mp hstep
  obtain ⟨implemented, _, hstep⟩ := bind_eq_ok.mp hstep
  dsimp only at hstep
  split at hstep
  · exact absurd hstep (by simp [Origin.reject, bind, Except.bind])
  generalize (if c.isInterface = true then [] else extended) = supers at hstep
  generalize (if c.isInterface = true then extended else implemented) = interfaces at hstep
  split at hstep
  · exact absurd hstep (by simp [Origin.reject, bind, Except.bind])
  -- neither loop has a result, so the hierarchy at the end is the updated one
  obtain ⟨_, _, hstep⟩ := bind_eq_ok.mp hstep
  obtain ⟨_, _, hstep⟩ := bind_eq_ok.mp hstep
  cases hstep
  exact allBodies_update hh (fun m hm => absurd hm (by simp [shell]))

theorem allBodies_addMember {c : Source.Class} (hh : AllBodies P h)
    (hstep : addMember o h c = .ok h') : AllBodies P h' := by
  unfold addMember at hstep
  split at hstep
  · exact absurd hstep (by simp [Origin.reject])
  · unfold Hierarchy.add at hstep
    split at hstep
    · exact absurd hstep (by simp [Origin.attempt, Origin.reject])
    · cases hstep; exact hh

theorem allBodies_declareMethod [Nesting] {c : Source.Class} {m : Source.Method} (hh : AllBodies P h)
    (hstep : declareMethod o c h m = .ok h') : AllBodies P h' := by
  unfold declareMethod at hstep
  dsimp only at hstep
  split at hstep
  · exact absurd hstep (by simp [Origin.reject, bind, Except.bind])
  unfold Hierarchy.declareMethod at hstep
  split at hstep
  · exact absurd hstep (by simp [Origin.attempt, Origin.reject])
  rename_i d hd
  unfold ClassDecl.declare at hstep
  split at hstep
  · exact absurd hstep (by simp [Origin.attempt, Origin.reject, bind, Except.bind])
  split at hstep
  · exact absurd hstep (by simp [Origin.attempt, Origin.reject, bind, Except.bind])
  cases hstep
  refine allBodies_update hh ?_
  intro k hk b hb
  rcases List.mem_append.mp hk with hk | hk
  · exact hh d (List.mem_of_find?_eq_some hd) k hk b hb
  · rw [List.mem_singleton.mp hk] at hb
    exact absurd hb (by simp)

/-- **What holds of every body that name resolution makes holds of all bodies of a hierarchy.** -/
theorem allBodies_hierarchy [Nesting] {classes : List Source.Class}
    (hP : ∀ {k : Hierarchy} {id : MethodId} {m : Source.Method} {items : List Source.Item} {b : Body},
      body o k id m items = .ok b → P b)
    (hh : hierarchy o classes = .ok h) : AllBodies P h := by
  obtain ⟨h₁, hdeclared, hh⟩ := bind_eq_ok.mp hh
  obtain ⟨h₂, hlinked, hh⟩ := bind_eq_ok.mp hh
  obtain ⟨h₃, hadded, hh⟩ := bind_eq_ok.mp hh
  obtain ⟨h₄, hmethods, hh⟩ := bind_eq_ok.mp hh
  have p₁ : AllBodies P h₁ := allBodies_declareClasses hdeclared
  have p₂ := foldlM_invariant (fun k c _ k' hk hs => allBodies_linkSupertypes hk hs) p₁ hlinked
  have p₃ := foldlM_invariant (fun k c _ k' hk hs => allBodies_addMember hk hs) p₂ hadded
  have p₄ := foldlM_invariant (fun k c _ k' hk hs => allBodies_declareMethod hk hs) p₃ hmethods
  refine foldlM_invariant (P := AllBodies P) ?_ p₄ hh
  rintro k ⟨c, m⟩ _ k' hk hs
  dsimp only at hs
  split at hs
  · cases hs; exact hk
  · obtain ⟨b, hb, hs⟩ := bind_eq_ok.mp hs
    cases hs
    exact allBodies_setBody hk (hP hb)

/-- **Every body of a hierarchy that was read is well-formed.** -/
theorem wellFormed_hierarchy [Nesting] {classes : List Source.Class} (hh : hierarchy o classes = .ok h) :
    AllBodies Body.WellFormed h :=
  allBodies_hierarchy wellFormed_body hh

end Resolve

/-- A program that was read from a text. -/
def Program.Parsed [Nesting] (p : Program) : Prop :=
  ∃ text main source, Program.ofText text main source = .ok p

/-- A text is read into classes, and their names are resolved. -/
theorem Program.exists_parse_of_ofText [Nesting] {text : List Char} {main source : Option String}
    {p : Program} (hp : Program.ofText text main source = .ok p) : ∃ classes,
      Grammar.parse text = .ok classes ∧
        Resolve.hierarchy ⟨text, source⟩ classes = .ok p.hierarchy := by
  unfold Program.ofText at hp
  obtain ⟨hierarchy, hread, hp⟩ := Resolve.bind_eq_ok.mp hp
  have hh : p.hierarchy = hierarchy := by
    split at hp
    · cases hp; rfl
    · split at hp
      · exact absurd hp (by simp)
      · cases hp; rfl
  unfold Hierarchy.ofText at hread
  split at hread
  · exact absurd hread (by simp)
  · rename_i classes hparse
    split at hread
    · exact absurd hread (by simp)
    · cases hres : Resolve.hierarchy ⟨text, source⟩ classes with
      | error e => rw [hres] at hread; exact absurd hread (by simp [Except.mapError])
      | ok h' =>
          rw [hres] at hread
          cases hread
          exact ⟨classes, hparse, hh ▸ hres⟩

/-- The hierarchy of such a program comes from name resolution. -/
theorem Program.Parsed.exists_classes [Nesting] {p : Program} (hp : p.Parsed) :
    ∃ o classes, Resolve.hierarchy o classes = .ok p.hierarchy := by
  obtain ⟨text, main, source, hp⟩ := hp
  obtain ⟨classes, _, hres⟩ := Program.exists_parse_of_ofText hp
  exact ⟨⟨text, source⟩, classes, hres⟩

/-- The bodies of such a program are well-formed. -/
theorem Program.Parsed.wellFormed [Nesting] {p : Program} (hp : p.Parsed) {id : MethodId} {b : Body}
    (hb : p.hierarchy.body? id = some b) : b.WellFormed ∧ ∀ s ∈ b.stmts, s.isPlain = true := by
  obtain ⟨o, classes, hres⟩ := hp.exists_classes
  obtain ⟨m, hm, hb⟩ := Option.bind_eq_some_iff.mp hb
  obtain ⟨c, hc, hm⟩ := Option.bind_eq_some_iff.mp hm
  have hc' : c ∈ p.hierarchy.declared := List.mem_of_find?_eq_some hc
  have hm' : m ∈ c.methods := List.mem_of_find?_eq_some hm
  exact ⟨Resolve.wellFormed_hierarchy hres c hc' m hm' b hb,
    Resolve.allBodies_hierarchy (P := fun b => ∀ s ∈ b.stmts, s.isPlain = true)
      Resolve.isPlain_body hres c hc' m hm' b hb⟩

theorem Program.Parsed.linked [Nesting] {p : Program} (hp : p.Parsed) {id : MethodId} {b : Body}
    (hb : p.hierarchy.body? id = some b) : b.Linked :=
  (hp.wellFormed hb).1.linked

/-- **A body that was read from a text is well-formed.** -/
theorem Body.Parsed.wellFormed [Nesting] {b : Body} (h : b.Parsed) : b.WellFormed := by
  obtain ⟨text, main, source, p, hp, m, hm, hb⟩ := h
  obtain ⟨c, hc, hm⟩ := List.mem_flatMap.mp hm
  have hparsed : p.Parsed := ⟨text, main, source, hp⟩
  obtain ⟨o, classes, hres⟩ := hparsed.exists_classes
  exact Resolve.wellFormed_hierarchy hres c hc m hm b hb

/-! ## An example -/

/-- The bodies of a program text. -/
def Body.ofText [Nesting] (text : List Char) : List Body :=
  match Program.ofText text none none with
  | .ok p => p.hierarchy.declaredMethods.filterMap (·.body)
  | .error _ => []

theorem toList_append_of_eq {s t : String} {l k : List Char} (hs : s.toList = l)
    (ht : t.toList = k) : (s ++ t).toList = l ++ k := by
  rw [String.toList_append, hs, ht]

-- A source comes with its characters, as `String.toList_ofList` has them for a literal. To have them
-- evaluated takes longer than to parse them.
theorem Body.parsed_of_mem [Nesting] (source : String) {text : List Char} (hsource : source.toList = text)
    {b : Body} (h : b ∈ Body.ofText text) : b.Parsed := by
  subst hsource
  unfold Body.ofText at h
  split at h
  · rename_i p hp
    obtain ⟨m, hm, hb⟩ := List.mem_filterMap.mp h
    exact ⟨source.toList, none, none, p, hp, m, hm, hb⟩
  · exact absurd h (by simp)

theorem Program.parsed_of_ofText [Nesting] (source : String) {text : List Char}
    (hsource : source.toList = text) {p : Program}
    (h : (Program.ofText text none none).toOption = some p) : p.Parsed := by
  subst hsource
  exact ⟨source.toList, none, none, Resolve.eq_ok_of_toOption h⟩

/-- A local variable of type `int`. -/
def intVar (index : Nat) (name : String) : Var :=
  ⟨index, name, .primitive .int⟩

/-- A method `int f(int a)` that subtracts two from its argument until nothing is left. The
assignment at 3 is behind a branch that is always taken, and nothing reads what is assigned at 5. -/
def countdown : Body where
  method := ⟨⟨"M", 0⟩, ⟨.primitive .int, "f", [.primitive .int]⟩⟩
  params := [intVar 0 "a"]
  vars := [intVar 0 "a", intVar 1 "x", intVar 2 "y", intVar 3 "z"]
  stmts := [
    .assign (.var (intVar 1 "x")) (.lit 4),
    .assign (.var (intVar 2 "y")) (.binary .div (.var (intVar 1 "x")) (.lit 2)),
    .branch (.binary .eq (.var (intVar 2 "y")) (.lit 2)) (some 4),
    .assign (.var (intVar 2 "y")) (.var (intVar 0 "a")),
    .assign (.var (intVar 0 "a")) (.binary .sub (.var (intVar 0 "a")) (.var (intVar 2 "y"))),
    .assign (.var (intVar 3 "z")) (.var (intVar 0 "a")),
    .branch (.binary .lt (.lit 0) (.var (intVar 0 "a"))) (some 1),
    .ret (some (.var (intVar 0 "a")))]
  lines := [1, 1, 1, 1, 1, 1, 1, 1]

set_option maxRecDepth 100000 in
theorem parsed_countdown : countdown.Parsed :=
  Body.parsed_of_mem
    ("class M\x7bstatic int f(int a)\x7bint x,y,z;x=4;L:y=x/2;if(y==2)goto E;y=a;" ++
      "E:a=a-y;z=a;if(0<a)goto L;return a;\x7d\x7d")
    (toList_append_of_eq String.toList_ofList String.toList_ofList) (by decide +kernel)

end TacFlow
