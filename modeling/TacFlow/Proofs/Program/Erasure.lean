import TacFlow.Proofs.Grammar.Declarations
import TacFlow.Proofs.Program.Inheritance

/-!
# Resolution without positions

Name resolution uses the positions in a source tree for the lines in its errors and for the lines of the
statements, and the number of digits of a literal for nothing. So a tree and its `bare` form, which
has neither, are resolved alike: either both are refused, or they give the same program up to the
lines. Each step is compared with the one on the bare tree; steps are put together from steps, and so
is the comparison.
-/

namespace TacFlow

/-! ## Trees without positions and digits -/

namespace Source

variable {f g : Literal → Literal}

def Atom.mapLiterals (f : Literal → Literal) : Atom → Atom
  | lit n => .lit (f n)
  | name x => .name x

def Access.mapLiterals (f : Literal → Literal) : Access → Access
  | element base index => .element base (index.mapLiterals f)
  | field base name => .field base name

def Target.mapLiterals (f : Literal → Literal) : Target → Target
  | name x => .name x
  | access a => .access (a.mapLiterals f)

def Value.mapLiterals (f : Literal → Literal) : Value → Value
  | atom a => .atom (a.mapLiterals f)
  | alloc t => .alloc t
  | cast t operand => .cast t (operand.mapLiterals f)
  | binary left op right => .binary (left.mapLiterals f) op (right.mapLiterals f)
  | access a => .access (a.mapLiterals f)

def Call.mapLiterals (f : Literal → Literal) (c : Call) : Call :=
  { c with args := c.args.map (·.mapLiterals f) }

/-- What a statement says, with other literals in it. -/
def Action.mapLiterals (f : Literal → Literal) : Action → Action
  | branch left op right label => .branch (left.mapLiterals f) op (right.mapLiterals f) label
  | goto label => .goto label
  | switch subject cases default => .switch subject (cases.map fun c => (f c.1, c.2)) default
  | ret value => .ret value
  | nop => .nop
  | invoke result call => .invoke result (call.mapLiterals f)
  | assign target value => .assign (target.mapLiterals f) (value.mapLiterals f)

theorem Atom.mapLiterals_mapLiterals (a : Atom) :
    (a.mapLiterals f).mapLiterals g = a.mapLiterals (g ∘ f) := by
  cases a <;> rfl

theorem Access.mapLiterals_mapLiterals (a : Access) :
    (a.mapLiterals f).mapLiterals g = a.mapLiterals (g ∘ f) := by
  cases a <;> simp [mapLiterals, Atom.mapLiterals_mapLiterals]

/-- Literals are changed twice as by both changes at once. -/
theorem Action.mapLiterals_mapLiterals (a : Action) :
    (a.mapLiterals f).mapLiterals g = a.mapLiterals (g ∘ f) := by
  have htarget : ∀ t : Target, (t.mapLiterals f).mapLiterals g = t.mapLiterals (g ∘ f) := fun t => by
    cases t <;> simp [Target.mapLiterals, Access.mapLiterals_mapLiterals]
  have hvalue : ∀ v : Value, (v.mapLiterals f).mapLiterals g = v.mapLiterals (g ∘ f) := fun v => by
    cases v <;> simp [Value.mapLiterals, Atom.mapLiterals_mapLiterals, Access.mapLiterals_mapLiterals]
  cases a <;>
    simp [mapLiterals, Call.mapLiterals, Atom.mapLiterals_mapLiterals, htarget, hvalue]

theorem Atom.literals_mapLiterals (a : Atom) : (a.mapLiterals f).literals = a.literals.map f := by
  cases a <;> rfl

theorem Access.literals_mapLiterals (a : Access) : (a.mapLiterals f).literals = a.literals.map f := by
  cases a <;> simp [mapLiterals, literals, Atom.literals_mapLiterals]

/-- The literals of a statement are those that it is given. -/
theorem Action.literals_mapLiterals (a : Action) : (a.mapLiterals f).literals = a.literals.map f := by
  have htarget : ∀ t : Target, (t.mapLiterals f).literals = t.literals.map f := fun t => by
    cases t <;> simp [Target.mapLiterals, Target.literals, Access.literals_mapLiterals]
  have hvalue : ∀ v : Value, (v.mapLiterals f).literals = v.literals.map f := fun v => by
    cases v <;> simp [Value.mapLiterals, Value.literals, Atom.literals_mapLiterals,
      Access.literals_mapLiterals]
  cases a <;>
    simp [mapLiterals, literals, Call.mapLiterals, List.flatMap_map, List.map_flatMap,
      Atom.literals_mapLiterals, htarget, hvalue]

def Literal.bare (n : Literal) : Literal :=
  { n with digits := 0 }

def Stmt.bare (s : Stmt) : Stmt :=
  ⟨s.labels, 0, s.action.mapLiterals Literal.bare⟩

def Item.bare : Item → Item
  | locals type names _ => .locals type names 0
  | stmt s => .stmt s.bare

def Method.bare (m : Method) : Method :=
  { m with body := m.body.map (·.map Item.bare), pos := 0 }

def Class.bare (c : Class) : Class :=
  { c with methods := c.methods.map Method.bare, pos := 0 }

end Source

/-! ## Programs without lines -/

def Body.unlined (b : Body) : Body :=
  { b with lines := [] }

def Method.unlined (m : Method) : Method :=
  { m with body := m.body.map Body.unlined }

def ClassDecl.unlined (c : ClassDecl) : ClassDecl :=
  { c with methods := c.methods.map Method.unlined }

def Hierarchy.unlined (h : Hierarchy) : Hierarchy :=
  { h with declared := h.declared.map ClassDecl.unlined }

/-- A program without the lines of its statements. -/
def Program.unlined (p : Program) : Program :=
  { p with hierarchy := p.hierarchy.unlined }

theorem Hierarchy.class?_unlined (h : Hierarchy) (a : ClassId) :
    h.unlined.class? a = (h.class? a).map ClassDecl.unlined := by
  unfold Hierarchy.class? Hierarchy.unlined
  rw [List.find?_map]
  rfl

theorem Hierarchy.member?_unlined (h : Hierarchy) (name : String) :
    h.unlined.member? name = (h.member? name).map ClassDecl.unlined := by
  unfold Hierarchy.member?
  change (h.members.find? (·.name == name)).bind h.unlined.class? = _
  cases h.members.find? (·.name == name) with
  | none => rfl
  | some a => exact h.class?_unlined a

theorem ClassDecl.method?_unlined (c : ClassDecl) (s : Subsignature) :
    c.unlined.method? s = (c.method? s).map Method.unlined := by
  unfold ClassDecl.method? ClassDecl.unlined
  rw [List.find?_map]
  rfl

/-- A signature stands for the same method with or without lines. -/
theorem Hierarchy.resolve_unlined [Nesting] (h : Hierarchy) (signature : String) :
    h.unlined.resolve signature = (h.resolve signature).map Method.unlined := by
  unfold Hierarchy.resolve
  cases MethodId.read signature.toList with
  | error e => rfl
  | ok read =>
      obtain ⟨owner, subsig⟩ := read
      dsimp only
      rw [h.member?_unlined]
      cases h.member? owner with
      | none => rfl
      | some c =>
          have hlook : c.unlined.canLookUp subsig = c.canLookUp subsig := by
            simp [ClassDecl.canLookUp, ClassDecl.method?_unlined]
          simp only [Option.map_some, hlook, ClassDecl.method?_unlined]
          split
          · rfl
          · cases c.method? subsig <;> rfl

namespace Resolve

open Source (Action Item Literal)

variable {ε ε' α β γ δ : Type} {R : α → β → Prop} {S : γ → δ → Prop} {o o' : Origin} {pos pos' : Nat}

/-! ## Computations that agree -/

/-- Both computations fail, or both succeed with results that are related. -/
inductive Alike (R : α → β → Prop) : Except ε α → Except ε' β → Prop where
  | ok {a : α} {b : β} : R a b → Alike R (.ok a) (.ok b)
  | error (e : ε) (e' : ε') : Alike R (.error e) (.error e')

theorem Alike.bind {x : Except ε α} {y : Except ε' β} {f : α → Except ε γ} {g : β → Except ε' δ}
    (h : Alike R x y) (hf : ∀ a b, R a b → Alike S (f a) (g b)) : Alike S (x >>= f) (y >>= g) := by
  cases h with
  | ok hab => exact hf _ _ hab
  | error e e' => exact .error e e'

theorem alike_eq_ok {x : Except ε α} {y : Except ε' β} (h : Alike R x y) {a : α} (hx : x = .ok a) :
    ∃ b, y = .ok b ∧ R a b := by
  subst hx
  cases h with
  | ok hab => exact ⟨_, rfl, hab⟩

theorem alike_iff {x : Except ε α} {y : Except ε' α} :
    Alike Eq x y ↔ ∀ a, x = .ok a ↔ y = .ok a := by
  constructor
  · rintro (@⟨a, _, rfl⟩ | _) b
    · exact ⟨fun h => by cases h; rfl, fun h => by cases h; rfl⟩
    · exact ⟨nofun, nofun⟩
  · intro h
    cases x with
    | ok a => exact (h a).mp rfl ▸ .ok rfl
    | error e =>
        cases y with
        | ok a => exact absurd ((h a).mpr rfl) nofun
        | error e' => exact .error e e'

theorem alike_eq_ok_right {x : Except ε α} {y : Except ε' β} (h : Alike R x y) {b : β}
    (hy : y = .ok b) : ∃ a, x = .ok a ∧ R a b := by
  subst hy
  cases h with
  | ok hab => exact ⟨_, rfl, hab⟩

theorem alike_reject (fault fault' : ProgramFault) :
    Alike R (o.reject pos fault : Except ProgramError α) (o'.reject pos' fault' : Except ProgramError β) :=
  .error _ _

theorem alike_attempt (x : Except ProgramFault α) : Alike Eq (o.attempt pos x) (o'.attempt pos' x) := by
  cases x with
  | ok a => exact .ok rfl
  | error fault => exact alike_reject fault fault

theorem alike_mapM {κ κ' : Type} {f : κ → Except ε α} {g : κ' → Except ε' α} {r : κ → κ'} {as : List κ}
    (h : ∀ a ∈ as, Alike Eq (f a) (g (r a))) : Alike Eq (as.mapM f) ((as.map r).mapM g) := by
  induction as with
  | nil => exact .ok rfl
  | cons a as ih =>
      rw [List.map_cons, List.mapM_cons, List.mapM_cons]
      refine (h a List.mem_cons_self).bind fun b _ hb => ?_
      refine (ih fun a ha => h a (List.mem_cons_of_mem _ ha)).bind fun bs _ hbs => ?_
      exact .ok (by rw [hb, hbs])

theorem alike_mapM_option {κ : Type} {f : κ → Except ε α} {g : κ → Except ε' α}
    (h : ∀ a, Alike Eq (f a) (g a)) (x : Option κ) : Alike Eq (x.mapM f) (x.mapM g) := by
  cases x with
  | none => exact .ok rfl
  | some a => exact (h a).bind fun b _ hb => .ok (by rw [hb])

theorem alike_foldlM {κ κ' : Type} {f : α → κ → Except ε α} {g : β → κ' → Except ε' β} {r : κ → κ'}
    {as : List κ} (h : ∀ a ∈ as, ∀ x y, R x y → Alike R (f x a) (g y (r a))) {x : α} {y : β} (hxy : R x y) :
    Alike R (as.foldlM f x) ((as.map r).foldlM g y) := by
  induction as generalizing x y with
  | nil => exact .ok hxy
  | cons a as ih =>
      rw [List.map_cons, List.foldlM_cons, List.foldlM_cons]
      exact (h a List.mem_cons_self x y hxy).bind fun _ _ hxy =>
        ih (fun a ha => h a (List.mem_cons_of_mem _ ha)) hxy

/-- Two folds over one and the same list. -/
theorem alike_foldlM_self {κ : Type} {f : α → κ → Except ε α} {g : β → κ → Except ε' β} {as : List κ}
    (h : ∀ a ∈ as, ∀ x y, R x y → Alike R (f x a) (g y a)) {x : α} {y : β} (hxy : R x y) :
    Alike R (as.foldlM f x) (as.foldlM g y) := by
  have hfold := alike_foldlM (r := id) h hxy
  rwa [List.map_id] at hfold

/-! ## Hierarchies -/

variable {h h' : Hierarchy}

theorem class?_alike (hh : h.unlined = h'.unlined) (a : ClassId) :
    (h.class? a).map ClassDecl.unlined = (h'.class? a).map ClassDecl.unlined := by
  rw [← Hierarchy.class?_unlined, ← Hierarchy.class?_unlined, hh]

theorem isSome_class?_alike (hh : h.unlined = h'.unlined) (a : ClassId) :
    (h.class? a).isSome = (h'.class? a).isSome := by
  have hsome := congrArg Option.isSome (class?_alike hh a)
  simpa using hsome

theorem alike_lookup (hh : h.unlined = h'.unlined) (name : String) :
    Alike (fun c c' => c.id = c'.id) (lookup o h pos name) (lookup o' h' pos' name) := by
  have hclass := class?_alike hh (classId name)
  unfold lookup
  cases hc : h.class? (classId name) with
  | none =>
      rw [hc] at hclass
      rw [Option.map_eq_none_iff.mp hclass.symm]
      exact alike_reject _ _
  | some c =>
      rw [hc] at hclass
      obtain ⟨c', hc', heq⟩ := Option.map_eq_some_iff.mp hclass.symm
      rw [hc']
      exact .ok (congrArg ClassDecl.id heq).symm

/-- In one and the same hierarchy a name stands for the same class. -/
theorem alike_lookup_self (name : String) :
    Alike Eq (lookup o h pos name) (lookup o' h pos' name) := by
  unfold lookup
  split
  · exact .ok rfl
  · exact alike_reject _ _

/-! ## Classes and methods -/

theorem alike_declareClasses (o o' : Origin) (classes : List Source.Class) :
    Alike Eq (declareClasses o classes) (declareClasses o' (classes.map Source.Class.bare)) := by
  refine alike_foldlM (fun c _ k k' hk => ?_) rfl
  subst hk
  change Alike Eq _ (if (k.class? (classId c.name)).isSome then _ else Except.ok (k.declare (shell c)))
  split
  · exact alike_reject _ _
  · exact .ok rfl

theorem alike_linkSupertypes (o o' : Origin) (h : Hierarchy) (c : Source.Class) :
    Alike Eq (linkSupertypes o h c) (linkSupertypes o' h c.bare) := by
  have hnames : ∀ names : List String, Alike Eq (names.mapM (lookup o h c.pos))
      (names.mapM (lookup o' h c.bare.pos)) := fun names => by
    have hmap : Alike Eq (names.mapM (lookup o h c.pos)) ((names.map id).mapM (lookup o' h c.bare.pos)) :=
      alike_mapM fun _ _ => alike_lookup_self _
    rwa [List.map_id] at hmap
  refine alike_iff.mpr fun k => ⟨fun hstep => ?_, fun hstep => ?_⟩
  · obtain ⟨extended, hextended, _⟩ := bind_eq_ok.mp hstep
    obtain ⟨implemented, himplemented, _⟩ := bind_eq_ok.mp ‹_›
    have hlinks := (linkSupertypes_eq_ok hextended himplemented).mp hstep
    exact (linkSupertypes_eq_ok ((alike_iff.mp (hnames _) _).mp hextended)
      ((alike_iff.mp (hnames _) _).mp himplemented)).mpr hlinks
  · obtain ⟨extended, hextended, _⟩ := bind_eq_ok.mp hstep
    obtain ⟨implemented, himplemented, _⟩ := bind_eq_ok.mp ‹_›
    have hlinks := (linkSupertypes_eq_ok hextended himplemented).mp hstep
    exact (linkSupertypes_eq_ok ((alike_iff.mp (hnames _) _).mpr hextended)
      ((alike_iff.mp (hnames _) _).mpr himplemented)).mpr hlinks

theorem alike_addMember (o o' : Origin) (h : Hierarchy) (c : Source.Class) :
    Alike Eq (addMember o h c) (addMember o' h c.bare) := by
  unfold addMember
  change Alike Eq _ (if h.isCyclic (classId c.name) then _ else _)
  split
  · exact alike_reject _ _
  · exact alike_attempt _

theorem alike_declareMethod [Nesting] (o o' : Origin) (c : Source.Class) (h : Hierarchy) (m : Source.Method) :
    Alike Eq (declareMethod o c h m) (declareMethod o' c.bare h m.bare) := by
  have hsome : (m.bare.body).isSome = m.body.isSome := Option.isSome_map
  have hnone : (m.bare.body).isNone = m.body.isNone := Option.isNone_map
  unfold declareMethod
  dsimp only
  rw [hsome, hnone]
  change Alike Eq _ (if ((m.modifiers.contains .abstractWord || (c.isInterface && m.body.isNone)) &&
    m.body.isSome) = true then _ else _)
  split
  · exact .error _ _
  · exact alike_attempt _

/-! ## Bodies -/

/-- Scopes in which names have the same meaning. -/
structure Scope.Alike (s s' : Scope) : Prop where
  hierarchy : s.hierarchy.unlined = s'.hierarchy.unlined
  vars : s.vars = s'.vars

variable {s s' : Scope}

theorem Scope.Alike.var? (hs : s.Alike s') (x : String) : s.var? x = s'.var? x := by
  rw [Scope.var?, hs.vars, Scope.var?]

theorem alike_declare (hs : s.Alike s') (ty : Ty) (x : String) :
    Alike Scope.Alike (s.declare pos ty x) (s'.declare pos' ty x) := by
  unfold Scope.declare
  rw [hs.var?]
  split
  · exact alike_reject _ _
  · exact .ok ⟨hs.hierarchy, by rw [hs.vars]⟩

theorem alike_var (hs : s.Alike s') (x : String) : Alike Eq (s.var pos x) (s'.var pos' x) := by
  unfold Scope.var
  rw [hs.var?]
  split
  · exact .ok rfl
  · exact alike_reject _ _

theorem alike_atom (hs : s.Alike s') (a : Source.Atom) :
    Alike Eq (s.atom pos a) (s'.atom pos' (a.mapLiterals Literal.bare)) := by
  cases a with
  | lit n => exact .ok rfl
  | name x => exact (alike_var hs x).bind fun _ _ hx => .ok (by rw [hx])

theorem alike_access (hs : s.Alike s') (a : Source.Access) :
    Alike Eq (s.access pos a) (s'.access pos' (a.mapLiterals Literal.bare)) := by
  cases a with
  | element base index =>
      exact (alike_var hs base).bind fun _ _ hx =>
        (alike_atom hs index).bind fun _ _ hi => .ok (by rw [hx, hi])
  | field base name =>
      unfold Scope.access
      dsimp only [Source.Access.mapLiterals]
      rw [hs.var?, isSome_class?_alike hs.hierarchy]
      split
      · exact .ok rfl
      · split
        · exact .ok rfl
        · exact alike_reject _ _

theorem alike_target (hs : s.Alike s') (t : Source.Target) :
    Alike Eq (s.target pos t) (s'.target pos' (t.mapLiterals Literal.bare)) := by
  cases t with
  | name x => exact (alike_var hs x).bind fun _ _ hx => .ok (by rw [hx])
  | access a => exact alike_access hs a

theorem alike_value (hs : s.Alike s') (v : Source.Value) :
    Alike Eq (s.value pos v) (s'.value pos' (v.mapLiterals Literal.bare)) := by
  cases v with
  | atom a => exact alike_atom hs a
  | alloc t => exact .ok rfl
  | cast t a => exact (alike_atom hs a).bind fun _ _ ha => .ok (by rw [ha])
  | binary l op r =>
      exact (alike_atom hs l).bind fun _ _ hl => (alike_atom hs r).bind fun _ _ hr => .ok (by rw [hl, hr])
  | access a => exact (alike_access hs a).bind fun _ _ ha => .ok (by rw [ha])

theorem alike_call (hs : s.Alike s') (c : Source.Call) :
    Alike Eq (s.call pos c) (s'.call pos' (c.mapLiterals Literal.bare)) := by
  refine (alike_lookup hs.hierarchy c.callee.owner).bind fun owner owner' howner => ?_
  have hlength : (c.mapLiterals Literal.bare).args.length = c.args.length := List.length_map _
  have hrest : Alike Eq (do
      let args ← c.args.mapM (s.atom pos)
      let receiver ← c.receiver.mapM (s.var pos)
      return (⟨c.kind, ⟨owner.id, c.callee.subsig⟩, receiver, args⟩ : Call) : Except ProgramError Call) (do
      let args ← (c.mapLiterals Literal.bare).args.mapM (s'.atom pos')
      let receiver ← c.receiver.mapM (s'.var pos')
      return (⟨c.kind, ⟨owner'.id, c.callee.subsig⟩, receiver, args⟩ : Call) : Except ProgramError Call) :=
    (alike_mapM fun a _ => alike_atom hs a).bind fun _ _ hargs =>
      (alike_mapM_option (alike_var hs) c.receiver).bind fun _ _ hreceiver =>
        .ok (by rw [howner, hargs, hreceiver])
  dsimp only
  rw [hlength]
  change Alike Eq (if c.args.length ≠ c.callee.subsig.params.length then _ else _)
    (if c.args.length ≠ c.callee.subsig.params.length then _ else _)
  split
  · exact .error _ _
  · exact hrest

theorem alike_stmt (hs : s.Alike s') (a : Action) :
    Alike Eq (s.stmt pos a) (s'.stmt pos' (a.mapLiterals Literal.bare)) := by
  cases a with
  | branch l op r label =>
      exact (alike_atom hs l).bind fun _ _ hl => (alike_atom hs r).bind fun _ _ hr => .ok (by rw [hl, hr])
  | goto label => exact .ok rfl
  | switch x cases default => exact (alike_var hs x).bind fun _ _ hx => .ok (by rw [hx])
  | ret x => exact (alike_mapM_option (alike_var hs) x).bind fun _ _ hx => .ok (by rw [hx])
  | nop => exact .ok rfl
  | invoke result c =>
      exact (alike_mapM_option (alike_var hs) result).bind fun _ _ hr =>
        (alike_call hs c).bind fun _ _ hc => .ok (by rw [hr, hc])
  | assign t v =>
      exact (alike_target hs t).bind fun _ _ ht =>
        (alike_value hs v).bind fun _ _ hv => .ok (by rw [ht, hv])

theorem alike_collectLabels (o o' : Origin) (stmts : List Source.Stmt) :
    Alike Eq (collectLabels o stmts) (collectLabels o' (stmts.map Source.Stmt.bare)) := by
  unfold collectLabels
  rw [List.zipIdx_map]
  refine alike_foldlM (fun e _ labels labels' hlabels => ?_) rfl
  subst hlabels
  refine alike_foldlM_self (fun name _ found found' hfound => ?_) rfl
  subst hfound
  split
  · exact alike_reject _ _
  · exact .ok rfl

theorem alike_findLabel (labels : Labels) (name : String) :
    Alike Eq (findLabel o labels pos name) (findLabel o' labels pos' name) := by
  unfold findLabel
  split
  · exact .ok rfl
  · exact alike_reject _ _

theorem alike_linkTargets (o o' : Origin) (labels : Labels) (src : Source.Stmt) (s : Stmt) :
    Alike Eq (linkTargets o labels src s) (linkTargets o' labels src.bare s) := by
  obtain ⟨names, pos, a⟩ := src
  cases s with
  | branch cond target =>
      cases a with
      | branch l op r label => exact (alike_findLabel labels label).bind fun _ _ hl => .ok (by rw [hl])
      | _ => exact .ok rfl
  | goto target =>
      cases a with
      | goto label => exact (alike_findLabel labels label).bind fun _ _ hl => .ok (by rw [hl])
      | _ => exact .ok rfl
  | switch x cases' target =>
      cases a with
      | switch subject cases default =>
          refine (alike_mapM fun c _ => ?_).bind fun _ _ hc =>
            (alike_findLabel labels default).bind fun _ _ hd => .ok (by rw [hc, hd])
          exact (alike_findLabel labels c.2).bind fun _ _ hl => .ok (by rw [hl]; rfl)
      | _ => exact .ok rfl
  | _ => exact .ok rfl

theorem alike_paramScope (hh : h.unlined = h'.unlined) (id : MethodId) (m : Source.Method) :
    Alike Scope.Alike (paramScope o h id m) (paramScope o' h' id m.bare) := by
  refine alike_foldlM_self (fun p _ s s' hs => ?_) ⟨hh, rfl⟩
  obtain ⟨ty, name⟩ := p
  cases name with
  | none => exact alike_reject _ _
  | some name => exact alike_declare hs ty name

theorem alike_bodyScope (hs : s.Alike s') (items : List Item) :
    Alike Scope.Alike (bodyScope s items) (bodyScope s' (items.map Item.bare)) := by
  refine alike_foldlM (fun item _ s s' hs => ?_) hs
  cases item with
  | stmt st => exact .ok hs
  | locals ty names pos => exact alike_foldlM_self (fun x _ s s' hs => alike_declare hs ty x) hs

theorem statements_bare (items : List Item) :
    statements (items.map Item.bare) = (statements items).map Source.Stmt.bare := by
  induction items with
  | nil => rfl
  | cons item items ih =>
      cases item with
      | locals ty names pos => exact ih
      | stmt st => exact congrArg (st.bare :: ·) ih

theorem alike_body (hh : h.unlined = h'.unlined) (id : MethodId) (m : Source.Method) (items : List Item) :
    Alike (fun b b' => b.unlined = b'.unlined) (body o h id m items)
      (body o' h' id m.bare (items.map Item.bare)) := by
  unfold body
  rw [statements_bare]
  refine (alike_paramScope hh id m).bind fun params params' hparams => ?_
  refine (alike_bodyScope hparams items).bind fun s s' hs => ?_
  refine (alike_collectLabels o o' (statements items)).bind ?_
  rintro labels _ rfl
  refine (alike_mapM fun st _ => alike_stmt hs st.action).bind ?_
  rintro unlinked _ rfl
  rw [List.zip_map_left]
  refine (alike_mapM fun e _ => alike_linkTargets o o' labels e.1 e.2).bind ?_
  rintro stmts _ rfl
  exact .ok (by simp only [Body.unlined, hparams.vars, hs.vars])

theorem setBody_unlined (h : Hierarchy) (b : Body) :
    (setBody h b).unlined = setBody h.unlined b.unlined := by
  unfold setBody Hierarchy.unlined
  rw [List.map_map, List.map_map]
  congr 1
  refine List.map_congr_left fun c _ => ?_
  simp only [Function.comp_apply]
  change ClassDecl.unlined (if c.id = b.method.owner then _ else _) = if c.id = b.method.owner then _ else _
  split
  · simp only [ClassDecl.unlined, List.map_map]
    congr 1
    refine List.map_congr_left fun m _ => ?_
    change Method.unlined (if m.id = b.method then _ else _) = if m.id = b.method then _ else _
    split <;> rfl
  · rfl

theorem alike_addBody (hh : h.unlined = h'.unlined) (e : Source.Class × Source.Method) :
    Alike (fun k k' => k.unlined = k'.unlined) (addBody o h e) (addBody o' h' (e.1.bare, e.2.bare)) := by
  obtain ⟨c, m⟩ := e
  unfold addBody
  cases hbody : m.body with
  | none =>
      have hbare : m.bare.body = none := by rw [Source.Method.bare, hbody]; rfl
      rw [hbare]
      exact .ok hh
  | some items =>
      have hbare : m.bare.body = some (items.map Item.bare) := by rw [Source.Method.bare, hbody]; rfl
      rw [hbare]
      refine (alike_body hh _ m items).bind fun b b' hb => .ok ?_
      rw [setBody_unlined, setBody_unlined, hh, hb]

theorem methodsOf_bare (classes : List Source.Class) :
    methodsOf (classes.map Source.Class.bare) =
      (methodsOf classes).map fun e => (e.1.bare, e.2.bare) := by
  unfold methodsOf
  rw [List.flatMap_map, List.map_flatMap]
  refine List.flatMap_congr fun c _ => ?_
  simp [Source.Class.bare]

/-- **A tree and its bare form are resolved alike**: neither gives a program, or both give the same one up
to the lines of the statements. -/
theorem alike_hierarchy [Nesting] (o o' : Origin) (classes : List Source.Class) :
    Alike (fun h h' => h.unlined = h'.unlined) (hierarchy o classes)
      (hierarchy o' (classes.map Source.Class.bare)) := by
  unfold hierarchy
  refine (alike_declareClasses o o' classes).bind ?_
  rintro h₁ _ rfl
  refine (alike_foldlM (R := Eq) (fun c _ k k' hk => hk ▸ alike_linkSupertypes o o' k c) rfl).bind ?_
  rintro h₂ _ rfl
  refine (alike_foldlM (R := Eq) (fun c _ k k' hk => hk ▸ alike_addMember o o' k c) rfl).bind ?_
  rintro h₃ _ rfl
  rw [methodsOf_bare]
  refine (alike_foldlM (R := Eq) (fun e _ k k' hk => hk ▸ alike_declareMethod o o' e.1 k e.2) rfl).bind ?_
  rintro h₄ _ rfl
  exact alike_foldlM (fun e _ k k' hk => alike_addBody hk e) rfl

end Resolve

/-! ## Programs -/

namespace Source

theorem Class.bare_unplaced (c : Class) : c.unplaced.bare = c.bare := by
  have hitem : ∀ i : Item, i.unplaced.bare = i.bare := fun i => by cases i <;> rfl
  have hmethod : ∀ m : Method, m.unplaced.bare = m.bare := fun m => by
    simp only [Method.unplaced, Method.bare, Option.map_map, Function.comp_def, List.map_map, hitem]
  simp only [Class.unplaced, Class.bare, List.map_map, Function.comp_def, hmethod]

theorem Class.literals_unplaced (c : Class) : c.unplaced.literals = c.literals := by
  have hitem : ∀ i : Item, i.unplaced.literals = i.literals := fun i => by cases i <;> rfl
  unfold Class.literals
  simp only [Class.unplaced, List.flatMap_map]
  refine List.flatMap_congr fun m _ => ?_
  cases hbody : m.body with
  | none => simp [Method.unplaced, hbody]
  | some items => simp [Method.unplaced, hbody, List.flatMap_map, hitem]

end Source

/-- **Two texts whose trees differ in their positions and in how their literals are written only are read as
the same program**, up to the lines of the statements. -/
theorem Program.exists_ofText_of_bare [Nesting] {text text' : List Char} {main source : Option String}
    {p : Program} {classes classes' : List Source.Class} (hparse : Grammar.parse text = .ok classes)
    (hparse' : Grammar.parse text' = .ok classes')
    (hbare : classes'.map Source.Class.bare = classes.map Source.Class.bare)
    (hlong : (classes'.flatMap Source.Class.literals).any (·.isTooLong) = false)
    (hp : Program.ofText text main source = .ok p) :
    ∃ p', Program.ofText text' main source = .ok p' ∧ p'.unlined = p.unlined := by
  obtain ⟨read, hread, hh⟩ := Program.exists_parse_of_ofText hp
  obtain rfl : read = classes := Except.ok.inj (hread.symm.trans hparse)
  -- both trees are resolved like their common bare form
  obtain ⟨k, hk, hhk⟩ := Resolve.alike_eq_ok (Resolve.alike_hierarchy _ ⟨text', source⟩ read) hh
  rw [← hbare] at hk
  obtain ⟨h', hh', hk'⟩ :=
    Resolve.alike_eq_ok_right (Resolve.alike_hierarchy ⟨text', source⟩ ⟨text', source⟩ classes') hk
  have hunlined : h'.unlined = p.hierarchy.unlined := hk'.trans hhk.symm
  have hread' : Hierarchy.ofText text' source = .ok h' := by
    unfold Hierarchy.ofText
    simp only [hparse', hlong, hh']
    rfl
  unfold Program.ofText at hp ⊢
  obtain ⟨h, _, hp⟩ := Resolve.bind_eq_ok.mp hp
  rw [hread']
  cases main with
  | none =>
      cases hp
      exact ⟨⟨h', none⟩, rfl, by rw [Program.unlined, Program.unlined, hunlined]⟩
  | some signature =>
      dsimp only at hp
      split at hp
      · exact absurd hp nofun
      · rename_i m hm
        cases hp
        have hresolve : (h'.resolve signature).map Method.unlined = .ok m.unlined := by
          rw [← Hierarchy.resolve_unlined, hunlined, Hierarchy.resolve_unlined, hm]
          rfl
        cases hm' : h'.resolve signature with
        | error fault => rw [hm'] at hresolve; exact absurd hresolve nofun
        | ok m' =>
            rw [hm'] at hresolve
            have heq : m'.unlined = m.unlined := Except.ok.inj hresolve
            have hid : m'.id = m.id := show m'.unlined.id = m.unlined.id by rw [heq]
            refine ⟨⟨h', some m'.id⟩, ?_, by rw [Program.unlined, Program.unlined, hunlined, hid]⟩
            simp only [bind, Except.bind, hm']
            rfl

/-- A program that is read has no literal that is too long. -/
theorem Program.not_tooLong_of_ofText [Nesting] {text : List Char} {main source : Option String} {p : Program}
    {classes : List Source.Class} (hparse : Grammar.parse text = .ok classes)
    (hp : Program.ofText text main source = .ok p) :
    ∀ n ∈ classes.flatMap Source.Class.literals, n.isTooLong = false := by
  unfold Program.ofText at hp
  obtain ⟨h, hread, _⟩ := Resolve.bind_eq_ok.mp hp
  unfold Hierarchy.ofText at hread
  simp only [hparse] at hread
  split at hread
  · exact absurd hread nofun
  · rename_i hlong
    intro n hn
    exact Bool.eq_false_iff.mpr fun hlong' => hlong (List.any_eq_true.mpr ⟨n, hn, hlong'⟩)

/-- The same if the second tree is known up to its positions. -/
theorem Program.exists_ofText_of_unplaced [Nesting] {text text' : List Char} {main source : Option String}
    {p : Program} {classes classes' read : List Source.Class} (hp : Program.ofText text main source = .ok p)
    (hparse : Grammar.parse text = .ok classes) (hread : Grammar.parse text' = .ok read)
    (hsame : read.map Source.Class.unplaced = classes'.map Source.Class.unplaced)
    (hbare : classes'.map Source.Class.bare = classes.map Source.Class.bare)
    (hlong : ∀ n ∈ classes'.flatMap Source.Class.literals, n.isTooLong = false) :
    ∃ p', Program.ofText text' main source = .ok p' ∧ p'.unlined = p.unlined := by
  refine Program.exists_ofText_of_bare hparse hread (Eq.trans ?_ hbare) ?_ hp
  · have hbare' := congrArg (List.map Source.Class.bare) hsame
    simpa [Function.comp_def, Source.Class.bare_unplaced] using hbare'
  · have hliterals := congrArg (List.flatMap Source.Class.literals) hsame
    simp only [List.flatMap_map, Source.Class.literals_unplaced] at hliterals
    rw [hliterals, List.any_eq_false]
    simpa using hlong

end TacFlow
