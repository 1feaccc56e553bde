import TacFlow.Proofs.Grammar.Yields
import TacFlow.Proofs.Program.Inheritance

/-!
# Resolved bodies

What the names in a method body have become once it is resolved: variables of the body, classes of
the program, and positions of statements.

A body is read in three passes. The first declares its variables, parameters first, and only ever adds
to the scope. The second turns the statements over, one by one and with that scope. The third gives
jumps their targets, by the labels that were collected from the source before; it leaves all else
alone. Every fact below belongs to one of the passes, and `resolves_body` puts them together.
-/

namespace TacFlow

/-- The variables that occur in a statement: the one that it writes and those that it reads. -/
def Stmt.vars (s : Stmt) : List Var :=
  s.defined.toList ++ s.uses

/-- A call of a class that there is, with as many arguments as its subsignature has types, and with a
receiver exactly if it is not static. -/
structure Call.Complete (c : Call) (h : Hierarchy) : Prop where
  owner : c.target.owner ∈ h.ids
  args : c.args.length = c.target.subsig.params.length
  receiver : c.receiver.isSome = true ↔ c.kind ≠ .static

namespace Resolve

open Source (Action Item)

/-- A label stands in front of a statement. -/
def LabelAt (source : List Source.Stmt) (label : String) (i : Nat) : Prop :=
  ∃ s, source[i]? = some s ∧ label ∈ s.labels

/-- A label stands in front of a statement, and of no other one. -/
def Marks (source : List Source.Stmt) (label : String) (i : Nat) : Prop :=
  LabelAt source label i ∧ ∀ j, LabelAt source label j → j = i

/-- A statement does what the source says, as far as jumps are concerned: each leads to the statement
that its label marks, and a switch has one target for every case. -/
def Links (source : List Source.Stmt) : Action → Stmt → Prop
  | .branch _ _ _ label, .branch _ target => ∃ i, target = some i ∧ Marks source label i
  | .goto label, .goto target => ∃ i, target = some i ∧ Marks source label i
  | .switch _ cases default, .switch _ cases' default' =>
    List.Forall₂ (fun c c' => c'.1 = c.1.value ∧ Marks source c.2 c'.2) cases cases' ∧
      ∃ i, default' = some i ∧ Marks source default i
  | .ret _, .ret _ | .nop, .nop | .invoke _ _, .invoke _ _ | .assign _ _, .assign _ _ => True
  | _, _ => False

/-- A body is the code of a method with all names resolved. -/
structure Resolves (h : Hierarchy) (m : Source.Method) (items : List Item) (b : Body) : Prop where
  /-- The statements are those of the source in order, and jumps lead where the labels stand. -/
  stmts : List.Forall₂ (Links (statements items)) ((statements items).map (·.action)) b.stmts
  /-- Every variable that occurs in a statement is a variable of the body. -/
  vars {s : Stmt} {x : Var} : s ∈ b.stmts → x ∈ s.vars → x ∈ b.vars
  /-- The variables have different names. -/
  names : (b.vars.map (·.name)).Nodup
  /-- They begin with the parameters. -/
  front : b.params <+: b.vars
  /-- These have the types and names of the declared ones, in order. -/
  params : b.params.map (fun x => (x.type, some x.name)) = m.params
  /-- Every call is complete. -/
  calls {s : Stmt} {c : Call} : s ∈ b.stmts → s.call? = some c → c.Complete h

variable {o : Origin} {sc sc' : Scope} {pos i : Nat} {labels : Labels}

/-! ## Declaring variables -/

/-- A scope with more variables than another one, under new names. -/
structure Scope.Extends (s s' : Scope) : Prop where
  vars : s.vars <+: s'.vars
  hierarchy : s'.hierarchy = s.hierarchy
  nodup : (s.vars.map (·.name)).Nodup → (s'.vars.map (·.name)).Nodup

theorem Scope.Extends.refl (s : Scope) : s.Extends s :=
  ⟨List.prefix_refl _, rfl, id⟩

theorem Scope.Extends.trans {s s' s'' : Scope} (h : s.Extends s') (h' : s'.Extends s'') :
    s.Extends s'' :=
  ⟨h.vars.trans h'.vars, h'.hierarchy.trans h.hierarchy, fun hn => h'.nodup (h.nodup hn)⟩

theorem declare_ok {type : Ty} {name : String} (h : sc.declare pos type name = .ok sc') :
    sc.Extends sc' ∧ ∃ index, sc'.vars = sc.vars ++ [⟨index, name, type⟩] := by
  unfold Scope.declare at h
  split at h
  · exact absurd h (by simp [Origin.reject])
  · rename_i hnew
    cases h
    refine ⟨⟨List.prefix_append _ _, rfl, fun hn => ?_⟩, _, rfl⟩
    rw [List.map_append, List.nodup_append]
    refine ⟨hn, by simp, ?_⟩
    intro x hx y hy hxy
    obtain ⟨z, hz, rfl⟩ := List.mem_map.mp hx
    have hname : z.name = name := by simpa [hxy] using hy
    exact hnew (List.find?_isSome.mpr ⟨z, hz, by simp [hname]⟩)

/-- The scope of the parameters holds them and nothing else. -/
theorem paramScope_ok {h : Hierarchy} {id : MethodId} {m : Source.Method}
    (hs : paramScope o h id m = .ok sc) :
    sc.vars.map (fun x => (x.type, some x.name)) = m.params ∧ sc.hierarchy = h ∧
      (sc.vars.map (·.name)).Nodup := by
  refine foldlM_induction (P := fun done s =>
    s.vars.map (fun x => (x.type, some x.name)) = done ∧ s.hierarchy = h ∧
      (s.vars.map (·.name)).Nodup) ?_ ⟨rfl, rfl, by simp⟩ hs
  rintro done ⟨type, name⟩ s s' _ ⟨hparams, hhierarchy, hnodup⟩ hstep
  cases name with
  | none => exact absurd hstep (by simp [Origin.reject])
  | some name =>
      obtain ⟨hextends, index, hvars⟩ := declare_ok hstep
      refine ⟨?_, hextends.hierarchy.trans hhierarchy, hextends.nodup hnodup⟩
      rw [hvars, List.map_append, hparams]
      rfl

theorem bodyScope_ok {items : List Item} (h : bodyScope sc items = .ok sc') : sc.Extends sc' := by
  refine foldlM_invariant (P := sc.Extends) ?_ (.refl sc) h
  intro s item _ s' hs hstep
  cases item with
  | stmt src => cases hstep; exact hs
  | locals type names pos =>
      refine foldlM_invariant (P := sc.Extends) ?_ hs hstep
      intro k name _ k' hk hname
      exact hk.trans (declare_ok hname).1

/-! ## Turning statements over -/

theorem mem_vars_of_var? {name : String} {x : Var} (h : sc.var? name = some x) : x ∈ sc.vars :=
  List.mem_of_find?_eq_some h

theorem mem_vars_of_var {name : String} {x : Var} (h : sc.var pos name = .ok x) : x ∈ sc.vars := by
  unfold Scope.var at h
  split at h
  · rename_i hx
    cases h
    exact mem_vars_of_var? hx
  · exact absurd h (by simp [Origin.reject])

/-- A variable that may be missing. -/
theorem mem_vars_of_mapM {name : Option String} {x : Option Var}
    (h : name.mapM (sc.var pos) = .ok x) : ∀ y ∈ x, y ∈ sc.vars := by
  cases name with
  | none => cases h; simp
  | some name =>
      obtain ⟨y, hy, h⟩ := bind_eq_ok.mp h
      cases h
      rintro _ ⟨⟩
      exact mem_vars_of_var hy

theorem isSome_of_mapM {name : Option String} {x : Option Var}
    (h : name.mapM (sc.var pos) = .ok x) : x.isSome = name.isSome := by
  cases name with
  | none => cases h; rfl
  | some name =>
      obtain ⟨y, _, h⟩ := bind_eq_ok.mp h
      cases h; rfl

theorem uses_atom {a : Source.Atom} {e : Expr} (h : sc.atom pos a = .ok e) :
    ∀ x ∈ e.uses, x ∈ sc.vars := by
  cases a with
  | lit n => cases h; simp [Expr.uses]
  | name y =>
      obtain ⟨v, hv, h⟩ := bind_eq_ok.mp h
      cases h
      simpa [Expr.uses] using mem_vars_of_var hv

theorem uses_access {a : Source.Access} {p : Place} (h : sc.access pos a = .ok p) :
    (∀ x ∈ p.toExpr.uses, x ∈ sc.vars) ∧ p.defined = none ∧ p.uses = p.toExpr.uses := by
  cases a with
  | element base index =>
      obtain ⟨y, hy, h⟩ := bind_eq_ok.mp h
      obtain ⟨e, he, h⟩ := bind_eq_ok.mp h
      cases h
      refine ⟨?_, rfl, rfl⟩
      intro x hx
      rcases List.mem_cons.mp hx with rfl | hx
      · exact mem_vars_of_var hy
      · exact uses_atom he x hx
  | field base name =>
      simp only [Scope.access] at h
      split at h
      · rename_i y hy
        cases h
        exact ⟨by simpa [Place.toExpr, Expr.uses] using mem_vars_of_var? hy, rfl, rfl⟩
      · split at h
        · cases h
          exact ⟨by simp [Place.toExpr, Expr.uses], rfl, rfl⟩
        · exact absurd h (by simp [Origin.reject])

theorem uses_target {t : Source.Target} {p : Place} (h : sc.target pos t = .ok p) :
    ∀ x ∈ p.defined.toList ++ p.uses, x ∈ sc.vars := by
  cases t with
  | name y =>
      obtain ⟨v, hv, h⟩ := bind_eq_ok.mp h
      cases h
      simpa [Place.defined, Place.uses] using mem_vars_of_var hv
  | access a =>
      obtain ⟨huses, hdefined, hread⟩ := uses_access h
      rw [hdefined, hread]
      exact huses

theorem uses_value {v : Source.Value} {e : Expr} (h : sc.value pos v = .ok e) :
    ∀ x ∈ e.uses, x ∈ sc.vars := by
  cases v with
  | atom a => exact uses_atom h
  | alloc t => cases h; simp [Expr.uses]
  | cast t a =>
      obtain ⟨e, he, h⟩ := bind_eq_ok.mp h
      cases h
      intro x hx
      exact uses_atom he x hx
  | binary l op r =>
      obtain ⟨el, hl, h⟩ := bind_eq_ok.mp h
      obtain ⟨er, hr, h⟩ := bind_eq_ok.mp h
      cases h
      intro x hx
      rcases List.mem_append.mp hx with hx | hx
      · exact uses_atom hl x hx
      · exact uses_atom hr x hx
  | access a =>
      obtain ⟨p, hp, h⟩ := bind_eq_ok.mp h
      cases h
      exact (uses_access hp).1

theorem mem_usesOfAll {es : List Expr} {x : Var} :
    x ∈ Expr.usesOfAll es ↔ ∃ e ∈ es, x ∈ e.uses := by
  induction es with
  | nil => simp [Expr.usesOfAll]
  | cons e es ih => simp [Expr.usesOfAll, ih]

/-- **A call that is turned over is complete**, and its variables are in scope. -/
theorem call_ok {c : Source.Call} {call : Call} (hc : c.Received) (h : sc.call pos c = .ok call) :
    call.Complete sc.hierarchy ∧ ∀ x ∈ call.toExpr.uses, x ∈ sc.vars := by
  obtain ⟨owner, howner, h⟩ := bind_eq_ok.mp h
  dsimp only at h
  split at h
  · exact absurd h (by simp [Origin.reject, bind, Except.bind])
  rename_i hcount
  obtain ⟨args, hargs, h⟩ := bind_eq_ok.mp h
  obtain ⟨receiver, hreceiver, h⟩ := bind_eq_ok.mp h
  cases h
  have hatoms := forall₂_of_mapM hargs
  refine ⟨⟨?_, ?_, ?_⟩, ?_⟩
  · rw [Hierarchy.ids_eq_kinds]
    exact List.mem_map_of_mem (mem_kinds_of_lookup howner)
  · rw [← hatoms.length_eq]
    exact not_not.mp hcount
  · -- names are looked up here; that there is one exactly if the call needs it is up to the grammar
    rw [isSome_of_mapM hreceiver]
    exact hc
  · intro x hx
    rcases List.mem_append.mp hx with hx | hx
    · exact mem_vars_of_mapM hreceiver x (Option.mem_toList.mp hx)
    · obtain ⟨e, he, hx⟩ := mem_usesOfAll.mp hx
      obtain ⟨a, _, ha⟩ := exists_of_mem_mapM hargs he
      exact uses_atom ha x hx

/-- What the second pass guarantees of a statement. -/
structure Scoped (sc : Scope) (s : Stmt) : Prop where
  vars {x : Var} : x ∈ s.vars → x ∈ sc.vars
  calls {c : Call} : s.call? = some c → c.Complete sc.hierarchy

/-- **A statement that is turned over has its variables in scope**, and a call is complete. -/
theorem scoped_stmt {a : Action} {s : Stmt} (ha : a.Received) (h : sc.stmt pos a = .ok s) :
    Scoped sc s := by
  cases a with
  | branch l op r label =>
      obtain ⟨el, hl, h⟩ := bind_eq_ok.mp h
      obtain ⟨er, hr, h⟩ := bind_eq_ok.mp h
      cases h
      refine ⟨?_, fun hc => absurd hc (by simp [Stmt.call?])⟩
      intro x hx
      change x ∈ el.uses ++ er.uses at hx
      rcases List.mem_append.mp hx with hx | hx
      · exact uses_atom hl x hx
      · exact uses_atom hr x hx
  | goto label =>
      cases h
      exact ⟨fun hx => absurd hx (by simp [Stmt.vars, Stmt.defined, Stmt.uses]),
        fun hc => absurd hc (by simp [Stmt.call?])⟩
  | switch y cases' default =>
      obtain ⟨v, hv, h⟩ := bind_eq_ok.mp h
      cases h
      refine ⟨?_, fun hc => absurd hc (by simp [Stmt.call?])⟩
      intro x hx
      rw [List.mem_singleton.mp hx]
      exact mem_vars_of_var hv
  | ret y =>
      obtain ⟨v, hv, h⟩ := bind_eq_ok.mp h
      cases h
      refine ⟨?_, fun hc => absurd hc (by simp [Stmt.call?])⟩
      intro x hx
      cases v with
      | none => exact absurd hx (by simp [Stmt.vars, Stmt.defined, Stmt.uses])
      | some v =>
          have hxv : x = v := by simpa [Stmt.vars, Stmt.defined, Stmt.uses, Expr.uses] using hx
          exact mem_vars_of_mapM hv x (congrArg some hxv.symm)
  | nop =>
      cases h
      exact ⟨fun hx => absurd hx (by simp [Stmt.vars, Stmt.defined, Stmt.uses]),
        fun hc => absurd hc (by simp [Stmt.call?])⟩
  | invoke result c =>
      obtain ⟨y, hy, h⟩ := bind_eq_ok.mp h
      obtain ⟨call, hcall, h⟩ := bind_eq_ok.mp h
      cases h
      obtain ⟨hcomplete, huses⟩ := call_ok ha hcall
      refine ⟨?_, ?_⟩
      · intro x hx
        rcases List.mem_append.mp hx with hx | hx
        · exact mem_vars_of_mapM hy x (Option.mem_toList.mp hx)
        · exact huses x hx
      · rintro _ ⟨⟩
        exact hcomplete
  | assign t v =>
      obtain ⟨p, hp, h⟩ := bind_eq_ok.mp h
      obtain ⟨e, he, h⟩ := bind_eq_ok.mp h
      cases h
      refine ⟨?_, fun hc => absurd hc (by simp [Stmt.call?])⟩
      intro x hx
      change x ∈ p.defined.toList ++ (p.uses ++ e.uses) at hx
      rw [← List.append_assoc] at hx
      rcases List.mem_append.mp hx with hx | hx
      · exact uses_target hp x hx
      · exact uses_value he x hx

/-! ## Labels -/

/-- Labels taken in from one statement. -/
theorem labels_of_stmt {s : Source.Stmt} {i : Nat} {labels labels' : Labels}
    (hn : (labels.map (·.1)).Nodup)
    (h : s.labels.foldlM (fun labels name =>
      if labels.any (·.1 == name) then o.reject s.pos (.duplicateLabel name)
      else .ok (labels ++ [(name, i)])) labels = .ok labels') :
    (labels'.map (·.1)).Nodup ∧
      ∀ e, e ∈ labels' ↔ e ∈ labels ∨ e.2 = i ∧ e.1 ∈ s.labels := by
  refine foldlM_induction (P := fun done ls => (ls.map (·.1)).Nodup ∧
    ∀ e, e ∈ ls ↔ e ∈ labels ∨ e.2 = i ∧ e.1 ∈ done) ?_ ⟨hn, by simp⟩ h
  rintro done name ls ls' _ ⟨hnodup, hmem⟩ hstep
  split at hstep
  · exact absurd hstep (by simp [Origin.reject])
  · rename_i hnew
    cases hstep
    refine ⟨?_, ?_⟩
    · rw [List.map_append, List.nodup_append]
      refine ⟨hnodup, by simp, ?_⟩
      intro x hx y hy hxy
      obtain ⟨e, he, rfl⟩ := List.mem_map.mp hx
      have hname : e.1 = name := by simpa [hxy] using hy
      exact hnew (List.any_eq_true.mpr ⟨e, he, by simp [hname]⟩)
    · intro e
      rw [List.mem_append, hmem, List.mem_singleton, List.mem_append, List.mem_singleton,
        Prod.ext_iff]
      tauto

/-- **The collected labels are those in the source, each once.** -/
theorem collectLabels_ok {source : List Source.Stmt} (h : collectLabels o source = .ok labels) :
    (labels.map (·.1)).Nodup ∧ ∀ e, e ∈ labels ↔ LabelAt source e.1 e.2 := by
  have key : (labels.map (·.1)).Nodup ∧
      ∀ e, e ∈ labels ↔ ∃ s, (s, e.2) ∈ source.zipIdx ∧ e.1 ∈ s.labels := by
    refine foldlM_induction (P := fun done ls => (ls.map (·.1)).Nodup ∧
      ∀ e, e ∈ ls ↔ ∃ s, (s, e.2) ∈ done ∧ e.1 ∈ s.labels) ?_ ⟨by simp, by simp⟩ h
    rintro done ⟨s, i⟩ ls ls' _ ⟨hnodup, hmem⟩ hstep
    obtain ⟨hnodup', hmem'⟩ := labels_of_stmt hnodup hstep
    refine ⟨hnodup', fun e => ?_⟩
    rw [hmem', hmem]
    constructor
    · rintro (⟨s', hs', he⟩ | ⟨rfl, he⟩)
      · exact ⟨s', List.mem_append_left _ hs', he⟩
      · exact ⟨s, List.mem_append_right _ (by simp), he⟩
    · rintro ⟨s', hs', he⟩
      rcases List.mem_append.mp hs' with hs' | hs'
      · exact Or.inl ⟨s', hs', he⟩
      · obtain ⟨rfl, hi⟩ := Prod.mk.inj (List.mem_singleton.mp hs')
        exact Or.inr ⟨hi, he⟩
  simp only [List.mk_mem_zipIdx_iff_getElem?] at key
  exact key

/-- **A label that is found marks its statement.** -/
theorem marks_of_findLabel {source : List Source.Stmt} (hl : collectLabels o source = .ok labels)
    {name : String} (h : findLabel o labels pos name = .ok i) : Marks source name i := by
  obtain ⟨hnodup, hmem⟩ := collectLabels_ok hl
  unfold findLabel at h
  split at h
  · rename_i label j hfind
    cases h
    have hname : label = name := by simpa using List.find?_some hfind
    subst hname
    have hfound := List.mem_of_find?_eq_some hfind
    refine ⟨(hmem _).mp hfound, fun j hj => ?_⟩
    -- two entries of one name are the same entry
    have heq := List.inj_on_of_nodup_map hnodup ((hmem (label, j)).mpr hj) hfound rfl
    exact congrArg Prod.snd heq
  · exact absurd h (by simp [Origin.reject])

/-! ## Linking -/

/-- Linking gives jumps their targets and leaves variables and calls alone. -/
theorem links_of_linkTargets {source : List Source.Stmt}
    (hl : collectLabels o source = .ok labels) {src : Source.Stmt} {s s' : Stmt}
    (hs : sc.stmt src.pos src.action = .ok s) (h : linkTargets o labels src s = .ok s') :
    Links source src.action s' ∧ s'.vars = s.vars ∧ s'.call? = s.call? := by
  unfold linkTargets at h
  cases ha : src.action with
  | branch l op r label =>
      rw [ha] at hs h
      obtain ⟨_, _, hs⟩ := bind_eq_ok.mp hs
      obtain ⟨_, _, hs⟩ := bind_eq_ok.mp hs
      cases hs
      obtain ⟨i, hi, h⟩ := bind_eq_ok.mp h
      cases h
      exact ⟨⟨i, rfl, marks_of_findLabel hl hi⟩, rfl, rfl⟩
  | goto label =>
      rw [ha] at hs h
      cases hs
      obtain ⟨i, hi, h⟩ := bind_eq_ok.mp h
      cases h
      exact ⟨⟨i, rfl, marks_of_findLabel hl hi⟩, rfl, rfl⟩
  | switch x cases' default =>
      rw [ha] at hs h
      obtain ⟨_, _, hs⟩ := bind_eq_ok.mp hs
      cases hs
      obtain ⟨targets, htargets, h⟩ := bind_eq_ok.mp h
      obtain ⟨i, hi, h⟩ := bind_eq_ok.mp h
      cases h
      refine ⟨⟨?_, i, rfl, marks_of_findLabel hl hi⟩, rfl, rfl⟩
      refine (forall₂_of_mapM htargets).imp ?_
      rintro ⟨n, label⟩ c hc
      obtain ⟨j, hj, hc⟩ := bind_eq_ok.mp hc
      cases hc
      exact ⟨rfl, marks_of_findLabel hl hj⟩
  | ret x =>
      rw [ha] at hs h
      obtain ⟨_, _, hs⟩ := bind_eq_ok.mp hs
      cases hs; cases h
      exact ⟨trivial, rfl, rfl⟩
  | nop =>
      rw [ha] at hs h
      cases hs; cases h
      exact ⟨trivial, rfl, rfl⟩
  | invoke result c =>
      rw [ha] at hs h
      obtain ⟨_, _, hs⟩ := bind_eq_ok.mp hs
      obtain ⟨_, _, hs⟩ := bind_eq_ok.mp hs
      cases hs; cases h
      exact ⟨trivial, rfl, rfl⟩
  | assign t v =>
      rw [ha] at hs h
      obtain ⟨_, _, hs⟩ := bind_eq_ok.mp hs
      obtain ⟨_, _, hs⟩ := bind_eq_ok.mp hs
      cases hs; cases h
      exact ⟨trivial, rfl, rfl⟩

/-- Two passes over a list, the second one over the pairs of what goes into the first and comes out. -/
theorem forall₂_of_zip {α β γ : Type} {R : α → β → Prop} {S : α × β → γ → Prop} {T : α → γ → Prop}
    (hcomp : ∀ a b c, R a b → S (a, b) c → T a c) {as : List α} {bs : List β} {cs : List γ}
    (hR : List.Forall₂ R as bs) (hS : List.Forall₂ S (as.zip bs) cs) : List.Forall₂ T as cs := by
  induction hR generalizing cs with
  | nil => cases hS; exact .nil
  | cons hab _ ih =>
      cases hS with
      | cons hc hS => exact .cons (hcomp _ _ _ hab hc) (ih hS)

/-- The statements of a body hold no other calls than its parts. -/
theorem received_of_mem_statements {items : List Item} (hitems : ∀ i ∈ items, i.Received)
    {src : Source.Stmt} (h : src ∈ statements items) : src.action.Received := by
  obtain ⟨item, hitem, heq⟩ := List.mem_filterMap.mp h
  cases item with
  | locals type names pos => exact absurd heq (by simp)
  | stmt s =>
      cases heq
      exact hitems _ hitem

/-- **Every body that name resolution makes is resolved.** -/
theorem resolves_body {h : Hierarchy} {id : MethodId} {m : Source.Method} {items : List Item}
    {b : Body} (hitems : ∀ i ∈ items, i.Received) (hb : body o h id m items = .ok b) :
    Resolves h m items b := by
  obtain ⟨params, hparams, hb⟩ := bind_eq_ok.mp hb
  obtain ⟨scope, hscope, hb⟩ := bind_eq_ok.mp hb
  obtain ⟨labels, hlabels, hb⟩ := bind_eq_ok.mp hb
  obtain ⟨unlinked, hunlinked, hb⟩ := bind_eq_ok.mp hb
  obtain ⟨stmts, hstmts, hb⟩ := bind_eq_ok.mp hb
  cases hb
  obtain ⟨hdeclared, hhierarchy, hnodup⟩ := paramScope_ok hparams
  have hextends := bodyScope_ok hscope
  have hturned := forall₂_of_mapM hunlinked
  -- the third pass keeps variables and calls, so what the second one guarantees still holds
  have hall : ∀ s ∈ stmts, Scoped scope s := by
    intro s hs
    obtain ⟨⟨src, u⟩, hmem, hlink⟩ := exists_of_mem_mapM hstmts hs
    have hturn := (List.forall₂_iff_zip.mp hturned).2 hmem
    obtain ⟨_, hvars, hcall⟩ := links_of_linkTargets hlabels hturn hlink
    have hscoped :=
      scoped_stmt (received_of_mem_statements hitems (List.of_mem_zip hmem).1) hturn
    exact ⟨fun hx => hscoped.vars (hvars ▸ hx), fun hc => hscoped.calls (hcall ▸ hc)⟩
  refine ⟨?_, fun hs hx => (hall _ hs).vars hx, hextends.nodup hnodup, hextends.vars, hdeclared, ?_⟩
  · refine List.forall₂_map_left_iff.mpr (forall₂_of_zip ?_ hturned (forall₂_of_mapM hstmts))
    intro src u s hturn hlink
    exact (links_of_linkTargets hlabels hturn hlink).1
  · intro s c hs hc
    have hcomplete := (hall s hs).calls hc
    rw [hextends.hierarchy, hhierarchy] at hcomplete
    exact hcomplete

end Resolve

end TacFlow
