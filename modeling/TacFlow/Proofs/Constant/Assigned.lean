import TacFlow.Proofs.Constant.LeastSolution
import TacFlow.Proofs.Constant.Soundness
import TacFlow.Proofs.Liveness.Paths

/-!
# What is assigned has a value

Joining takes no notice of an operand without a value, so `unassigned` has to mean that nothing has
been assigned: a variable that loses its value on one of two branches has the constant of the other
one behind them, and code that runs is taken to be dead.

A tracked variable that is assigned on a path has a value at its end, by induction along the path,
because an expression of operands with values has a value. What the induction asks for is that the
operands have been assigned, and that they can have a value at all. An untracked operand has none, and
an operation on it is `unassigned` unless the other operand is `nac`. `BlindAt` are the assignments
where this happens.
-/

namespace TacFlow

/-! ## Assigned on every path -/

/-- Paths of a body from its entry, each with the nodes that it passes before its end, last ones
first. -/
inductive Body.Path (b : Body) : List Point → Point → Prop
  | entry : Path b [] .entry
  | step {passed : List Point} {p q : Point} :
    Path b passed p → (Cfg.ofBody b).Leads p q → Path b (p :: passed) q

/-- Some path leads to a node. -/
def Body.Reachable (b : Body) (q : Point) : Prop :=
  ∃ passed, b.Path passed q

/-- A variable is a parameter, or one of the passed nodes writes it. -/
def Body.AssignedOn (b : Body) (x : Var) (passed : List Point) : Prop :=
  x ∈ b.params ∨ ∃ p ∈ passed, b.WritesAt x p

/-- On every path to a node, a variable is assigned before it. -/
def Body.AssignedBefore (b : Body) (x : Var) (q : Point) : Prop :=
  ∀ passed, b.Path passed q → b.AssignedOn x passed

/-- On every path, every variable of any type is assigned before it is read. -/
def Body.ReadsAssigned (b : Body) : Prop :=
  ∀ n x, b.ReadsAt x n → b.AssignedBefore x n

/-- Whether an expression divides or takes a remainder. -/
def Expr.divides : Expr → Bool
  | .binary op left right => op.isDivision || left.divides || right.divides
  | _ => false

/-- No statement assigns a quotient or a remainder. -/
def Body.DividesNot (b : Body) : Prop :=
  ∀ s ∈ b.stmts, ∀ d ∈ s.definition, d.2.divides = false

instance (b : Body) : Decidable b.DividesNot :=
  inferInstanceAs (Decidable (∀ s ∈ b.stmts, ∀ d ∈ s.definition, d.2.divides = false))

instance (g : Cfg) (p q : Point) : Decidable (g.Leads p q) :=
  inferInstanceAs (Decidable (q ∈ g.succs p))

section

variable {b : Body} {x : Var} {passed : List Point} {p q : Point}

theorem Body.not_writesAt_entry : ¬ b.WritesAt x .entry := by
  rintro ⟨s, hs, _⟩
  exact Body.ne_entry_of_at? hs rfl

theorem Body.writesAt_of_definition {s : Stmt} {e : Expr} (hs : b.at? p = some s)
    (hd : s.definition = some (x, e)) : b.WritesAt x p :=
  ⟨s, hs, Stmt.defined_of_definition hd⟩

theorem Body.exists_definition_of_writesAt (h : b.WritesAt x p) :
    ∃ s e, b.at? p = some s ∧ s.definition = some (x, e) ∧ ∀ y ∈ e.uses, b.ReadsAt y p := by
  obtain ⟨s, hs, hd⟩ := h
  cases s with
  | assign place value =>
      cases place with
      | var y =>
          obtain rfl : y = x := Option.some.inj hd
          exact ⟨_, value, hs, rfl, fun z hz => ⟨_, hs, by simpa [Stmt.uses, Place.uses] using hz⟩⟩
      | _ => exact absurd hd (by simp [Stmt.defined, Place.defined])
  | invoke result call =>
      obtain rfl : result = some x := hd
      exact ⟨_, call.toExpr, hs, rfl, fun z hz => ⟨_, hs, hz⟩⟩
  | _ => exact absurd hd (by simp [Stmt.defined])

theorem Body.Path.eq_nil (hl : b.Linked) (h : b.Path passed .entry) : passed = [] := by
  cases h with
  | entry => rfl
  | step _ hleads => exact absurd rfl (Cfg.Linked.mem_succs hl hleads).2

theorem Body.Path.mem_points (hl : b.Linked) (h : b.Path passed q) : q ∈ b.points := by
  cases h with
  | entry => exact b.entry_mem_points
  | step _ hleads => exact (Cfg.Linked.mem_succs hl hleads).1

/-- **Variables listed for the nodes are assigned before them** if along each edge nothing is listed
anew but what its source writes. -/
theorem Body.assignedBefore_of_listed {listed : Point → List Var}
    (hentry : ∀ x ∈ listed .entry, x ∈ b.params)
    (hedges : ∀ e ∈ (Cfg.ofBody b).edges, ∀ x ∈ listed e.target,
      (b.at? e.source).bind Stmt.defined = some x ∨ x ∈ listed e.source)
    (hx : x ∈ listed q) : b.AssignedBefore x q := by
  intro passed hpath
  induction hpath with
  | entry => exact Or.inl (hentry x hx)
  | @step passed p q _ hleads ih =>
      -- the last edge: its source writes the variable, or it is listed there already
      obtain ⟨e, he, rfl, rfl⟩ := Cfg.mem_succs.mp hleads
      rcases hedges e he x hx with hwrites | hlisted
      · obtain ⟨s, hs, hd⟩ := Option.bind_eq_some_iff.mp hwrites
        exact Or.inr ⟨_, List.mem_cons_self, s, hs, hd⟩
      · exact (ih hlisted).imp_right fun ⟨p, hp, hwrites⟩ =>
          ⟨p, List.mem_cons_of_mem _ hp, hwrites⟩

end

namespace Constants

variable {b : Body} {before after : Point → Env} {f : Env} {x y : Var} {e : Expr} {n q : Point}
  {passed : List Point}

/-! ## Values of expressions -/

theorem combine_ne_unassigned {op : BinOp} (hop : op.isDivision = false) {u v : Value}
    (hu : u ≠ .unassigned) (hv : v ≠ .unassigned) : Value.combine op u v ≠ .unassigned := by
  have hsafe : ¬ (op.isDivision = true ∧ v = .const 0) := by simp [hop]
  cases u with
  | unassigned => exact absurd rfl hu
  | nac =>
      rw [Value.combine_nac_left hsafe]
      simp
  | const m =>
      cases v with
      | unassigned => exact absurd rfl hv
      | nac => simp
      | const k =>
          rw [Value.combine_const hsafe]
          simp

/-- **An expression of variables with values has a value**, unless it divides. -/
theorem eval_ne_unassigned (hdiv : e.divides = false) (h : ∀ y ∈ e.uses, f.get y ≠ .unassigned) :
    e.eval f ≠ .unassigned := by
  induction e using Expr.divides.induct with
  | case1 op left right ihl ihr =>
      simp only [Expr.divides, Bool.or_eq_false_iff] at hdiv
      obtain ⟨⟨hop, hleft⟩, hright⟩ := hdiv
      have hl := ihl hleft fun y hy => h y (List.mem_append_left _ hy)
      have hr := ihr hright fun y hy => h y (List.mem_append_right _ hy)
      exact combine_ne_unassigned hop hl hr
  | case2 e hbinary =>
      cases e with
      | var y => exact h y (by simp [Expr.uses])
      | binary op left right => exact absurd rfl (hbinary op left right)
      | _ => simp [Expr.eval]

/-- An operation on a variable without a value has none, unless something else makes it `nac`. -/
theorem eval_of_unassigned (hy : y ∈ e.uses) (hnone : f.get y = .unassigned) :
    e.eval f = .nac ∨ e.eval f = .unassigned := by
  induction e using Expr.divides.induct with
  | case1 op left right ihl ihr =>
      rw [Expr.uses, List.mem_append] at hy
      rw [Expr.eval]
      by_cases hzero : op.isDivision = true ∧ right.eval f = .const 0
      · rw [hzero.2, Value.combine_zero hzero.1]
        exact Or.inr rfl
      · -- the operand that reads the variable is `nac` or `unassigned`, on either side
        rcases hy.imp ihl ihr with (hl | hl) | (hr | hr)
        · rw [hl, Value.combine_nac_left hzero]
          exact Or.inl rfl
        · rw [hl]
          by_cases hright : right.eval f = .nac
          · rw [hright, Value.combine_nac_right]
            exact Or.inl rfl
          · rw [Value.combine_unassigned_left hright]
            exact Or.inr rfl
        · rw [hr, Value.combine_nac_right]
          exact Or.inl rfl
        · rw [hr]
          by_cases hleft : left.eval f = .nac
          · rw [hleft, Value.combine_nac_left (by simp)]
            exact Or.inl rfl
          · rw [Value.combine_unassigned_right hleft]
            exact Or.inr rfl
  | case2 e hbinary =>
      cases e with
      | var z =>
          obtain rfl : y = z := by simpa [Expr.uses] using hy
          exact Or.inr hnone
      | lit k => exact absurd hy (by simp [Expr.uses])
      | binary op left right => exact absurd rfl (hbinary op left right)
      | _ => exact Or.inl rfl

/-! ## Nodes that assign -/

/-- A node assigns a tracked variable by an operation that reads an untracked one. -/
def BlindAt (b : Body) (e : Expr) (n : Point) : Prop :=
  ∃ s x, b.at? n = some s ∧ s.definition = some (x, e) ∧ x.isIntLike = true ∧
    e.isArithmetic = true ∧ ∃ y ∈ e.uses, ¬ y.isIntLike = true

/-- Wherever such an operation is reached, its other operand makes it `nac`. -/
def Sighted (b : Body) (before : Point → Env) : Prop :=
  ∀ n e, b.Reachable n → BlindAt b e n → e.eval (before n) = .nac

section

variable (hst : Stable (.ofBody b) before after) (hl : b.Linked)

include hst hl

/-- A node that writes a tracked variable gives it the value of its expression. -/
theorem get_after_of_definition {s : Stmt} (hn : b.Path passed n) (hs : b.at? n = some s)
    (hd : s.definition = some (x, e)) (hx : x.isIntLike = true) :
    (after n).get x = e.eval (before n) := by
  refine hst.assigns (hn.mem_points hl) (Body.ne_entry_of_at? hs) ?_
  change (b.at? n).bind (assigned (before n)) = _
  rw [hs, Option.bind_some, assigned_of_definition _ hd, if_pos hx]

/-- A node that does not write a variable keeps its value. -/
theorem get_after_of_not_writesAt (hn : b.Path passed n) (hne : n ≠ .entry)
    (hw : ¬ b.WritesAt x n) (hx : (before n).get x ≠ .unassigned) :
    (after n).get x = (before n).get x := by
  refine hst.keeps (hn.mem_points hl) hne ?_ hx
  intro v hv
  obtain ⟨s, hs, hv⟩ := Option.bind_eq_some_iff.mp hv
  obtain ⟨e, hd, _, _⟩ := definition_of_assigned hv
  exact hw (Body.writesAt_of_definition hs hd)

variable (hdiv : b.DividesNot) (hread : b.ReadsAssigned)

include hdiv hread

/-- **A written variable has a value** if the variables that have been assigned have one, and the node
is not blind. -/
theorem get_after_of_writesAt (hn : b.Path passed n)
    (hbefore : ∀ y, y.isIntLike = true → b.AssignedOn y passed → (before n).get y ≠ .unassigned)
    (hsighted : ∀ e, BlindAt b e n → e.eval (before n) = .nac) (hx : x.isIntLike = true)
    (hw : b.WritesAt x n) : (after n).get x ≠ .unassigned := by
  obtain ⟨s, e, hs, hd, huses⟩ := Body.exists_definition_of_writesAt hw
  rw [get_after_of_definition hst hl hn hs hd hx]
  by_cases hblind : BlindAt b e n
  · rw [hsighted e hblind]
    simp
  · have hdivides : e.divides = false := hdiv s (mem_stmts_of_at? hs) (x, e) hd
    by_cases harith : e.isArithmetic = true
    · -- it reads tracked variables only, or it would be blind
      refine eval_ne_unassigned hdivides fun y hy => ?_
      have hy' : y.isIntLike = true := by
        by_contra hnot
        exact hblind ⟨s, x, hs, hd, hx, harith, y, hy, hnot⟩
      exact hbefore y hy' (hread n y (huses y hy) _ hn)
    · -- what is not computed from operands is a literal or `nac`
      cases e with
      | var y => exact absurd rfl harith
      | binary op left right => exact absurd rfl harith
      | _ => simp [Expr.eval]

/-- **Along every path, what has been assigned has a value.** -/
theorem get_before_of_path (hsighted : Sighted b before) (hpath : b.Path passed q)
    (hx : x.isIntLike = true) (hon : b.AssignedOn x passed) (hne : q ≠ .entry) :
    (before q).get x ≠ .unassigned := by
  -- on the path, for all variables at once: a written one gets its value from others
  induction hpath generalizing x with
  | entry => exact absurd rfl hne
  | @step passed p q hpath hleads ih =>
      have hafter : (after p).get x ≠ .unassigned := by
        by_cases hp : p = .entry
        · -- behind the entry it is the parameters that are assigned
          subst hp
          obtain rfl := hpath.eq_nil hl
          have hparam : x ∈ b.params := by
            refine hon.resolve_right ?_
            rintro ⟨p, hp, hw⟩
            exact Body.not_writesAt_entry (List.mem_singleton.mp hp ▸ hw)
          have hboundary := congrFun hst.entry x
          rw [get_boundary, if_pos ⟨hparam, hx⟩] at hboundary
          rw [hboundary]
          simp
        · by_cases hw : b.WritesAt x p
          · exact get_after_of_writesAt hst hl hdiv hread hpath
              (fun y hy hyon => ih hy hyon hp) (hsighted p · ⟨_, hpath⟩) hx hw
          · have hon' : b.AssignedOn x passed := by
              refine hon.imp_right ?_
              rintro ⟨r, hr, hwr⟩
              rcases List.mem_cons.mp hr with rfl | hr
              · exact absurd hwr hw
              · exact ⟨r, hr, hwr⟩
            have hbefore := ih hx hon' hp
            rw [get_after_of_not_writesAt hst hl hpath hp hw hbefore]
            exact hbefore
      -- the edge brings the value to the next node
      obtain ⟨hq, hqne⟩ := Cfg.Linked.mem_succs hl hleads
      have hflow := hst.flows hq hqne hleads x
      intro hnone
      rw [hnone] at hflow
      exact hafter (Value.eq_of_le_unassigned hflow)

/-- **Written variables have values exactly if no blind operation is without one.** -/
theorem sighted_iff : Sighted b before ↔ ∀ n x, b.Reachable n → x.isIntLike = true →
    b.WritesAt x n → (after n).get x ≠ .unassigned := by
  constructor
  · rintro hsighted n x ⟨passed, hn⟩ hx hw
    have hne : n ≠ .entry := by
      rintro rfl
      exact Body.not_writesAt_entry hw
    exact get_after_of_writesAt hst hl hdiv hread hn
      (fun y hy hyon => get_before_of_path hst hl hdiv hread hsighted hn hy hyon hne)
      (hsighted n · ⟨_, hn⟩) hx hw
  · rintro hvalues n e ⟨passed, hn⟩ ⟨s, x, hs, hd, hx, _, y, hy, hnot⟩
    have hvalue := hvalues n x ⟨_, hn⟩ hx (Body.writesAt_of_definition hs hd)
    rw [get_after_of_definition hst hl hn hs hd hx] at hvalue
    have htracked := hst.tracked (hn.mem_points hl) (Body.ne_entry_of_at? hs)
    have hnone := eq_unassigned_of_le_knowable htracked hnot
    exact (eval_of_unassigned hy hnone).resolve_right hvalue

end

/-! ## The result -/

/-- **What is assigned has a value**, in what either solver returns for a body without quotients and
remainders that assigns every variable before it reads it. After a reachable statement, a tracked
variable that it writes has a value exactly if operations on untracked variables are `nac`. Then
every tracked variable that is assigned on all paths to a node has a value before it. -/
theorem before_ne_unassigned_of_assigned [Nesting] (hparsed : b.Parsed) (hdiv : b.DividesNot)
    (hread : b.ReadsAssigned) {solver : SolverKind} {s : Solution Point Env}
    (hs : Returns (.ofBody b) solver s) :
    (Sighted b (beforeAt s) ↔ ∀ n x, b.Reachable n → x.isIntLike = true → b.WritesAt x n →
      (afterAt s n).get x ≠ .unassigned) ∧
    (Sighted b (beforeAt s) → ∀ q x, b.Reachable q → q ≠ .entry → x.isIntLike = true →
      b.AssignedBefore x q → ∃ f, s.before.get? q = some f ∧ f.get x ≠ .unassigned) := by
  have hl := hparsed.wellFormed.linked
  have hst := stable_of_returns hl hs
  refine ⟨sighted_iff hst hl hdiv hread, ?_⟩
  rintro hsighted q x ⟨passed, hq⟩ hne hx hassigned
  refine ⟨beforeAt s q, get?_before_of_returns hl hs (hq.mem_points hl), ?_⟩
  exact get_before_of_path hst hl hdiv hread hsighted hq hx (hassigned _ hq) hne

end Constants

/-! ## Comparing a `long` -/

/-- The parameter `long p`. -/
def longParam : Var :=
  ⟨0, "p", .primitive .long⟩

/-- The variable `boolean x`. -/
def boolVar : Var :=
  ⟨2, "x", .primitive .boolean⟩

/-- The method `boolean f(long p, int c)` that compares its parameters. -/
def comparing : Body where
  method := ⟨⟨"M", 0⟩, ⟨.primitive .boolean, "f", [.primitive .long, .primitive .int]⟩⟩
  params := [longParam, intVar 1 "c"]
  vars := [longParam, intVar 1 "c", boolVar]
  stmts := [
    .assign (.var boolVar) (.binary .lt (.var (intVar 1 "c")) (.var longParam)),
    .ret (some (.var boolVar))]
  lines := [1, 1]

/-- A method that compares its first parameter with zero unless its second one is zero. -/
def choosing : Body where
  method := ⟨⟨"M", 0⟩, ⟨.primitive .boolean, "f", [.primitive .long, .primitive .int]⟩⟩
  params := [longParam, intVar 1 "c"]
  vars := [longParam, intVar 1 "c", boolVar]
  stmts := [
    .branch (.binary .eq (.var (intVar 1 "c")) (.lit 0)) (some 3),
    .assign (.var boolVar) (.binary .lt (.var longParam) (.lit 0)),
    .goto (some 4),
    .assign (.var boolVar) (.lit 1),
    .branch (.binary .eq (.var boolVar) (.lit 1)) (some 6),
    .ret (some (.var boolVar)),
    .ret (some (.var boolVar))]
  lines := [1, 1, 1, 1, 1, 1, 1]

/-- Reads of parameters and of listed variables are reads of assigned variables. -/
theorem Body.readsAssigned_of_listed {b : Body} {listed : Point → List Var}
    (hentry : ∀ x ∈ listed .entry, x ∈ b.params)
    (hedges : ∀ e ∈ (Cfg.ofBody b).edges, ∀ x ∈ listed e.target,
      (b.at? e.source).bind Stmt.defined = some x ∨ x ∈ listed e.source)
    (hreads : ∀ n ∈ b.points, ∀ x ∈ ((b.at? n).map Stmt.uses).getD [], x ∈ listed n) :
    b.ReadsAssigned := by
  rintro n x ⟨s, hs, hx⟩
  obtain ⟨i, rfl, hi⟩ := Body.at?_eq_some.mp hs
  refine assignedBefore_of_listed hentry hedges (hreads _ (Body.stmt_mem_points hi) x ?_)
  rw [hs]
  exact hx

namespace Constants

/-- What is assigned before the nodes of the examples: the parameters and, from a node on, the
variable. -/
def listedFrom (ns : List Point) (n : Point) : List Var :=
  if n ∈ ns then [longParam, intVar 1 "c", boolVar] else [longParam, intVar 1 "c"]

set_option maxRecDepth 100000 in
/-- Compared with a parameter of which nothing is known, the `long` leaves the result open. -/
theorem before_ne_unassigned_of_assigned_comparing :
    ∃ s f, Returns (.ofBody comparing) .worklist s ∧ Sighted comparing (beforeAt s) ∧
      s.before.get? (.stmt 1) = some f ∧ f.get boolVar ≠ .unassigned := by
  have hparsed : comparing.Parsed := Body.parsed_of_mem
    "class M\x7bstatic boolean f(long p,int c)\x7bboolean x;x=c<p;return x;\x7d\x7d"
    String.toList_ofList (by decide +kernel)
  have hentry : ∀ x ∈ listedFrom [.stmt 1] .entry, x ∈ comparing.params := by decide
  have hedges : ∀ e ∈ (Cfg.ofBody comparing).edges, ∀ x ∈ listedFrom [.stmt 1] e.target,
      (comparing.at? e.source).bind Stmt.defined = some x ∨ x ∈ listedFrom [.stmt 1] e.source := by
    decide
  have hread : comparing.ReadsAssigned := Body.readsAssigned_of_listed hentry hedges (by decide)
  have hassigned : comparing.AssignedBefore boolVar (.stmt 1) :=
    Body.assignedBefore_of_listed hentry hedges (by decide)
  have hreach : comparing.Reachable (.stmt 1) := by
    have hfirst : comparing.Path [.entry] (.stmt 0) := .step .entry (by decide)
    exact ⟨_, hfirst.step (by decide)⟩
  have hout : (solveWithin (.ofBody comparing) .worklist 20).map
      (fun s => (afterAt s (.stmt 0)).get boolVar) = some .nac := by
    decide +kernel
  obtain ⟨s, hs, hvalue⟩ := Option.map_eq_some_iff.mp hout
  obtain ⟨hiff, hvalues⟩ :=
    before_ne_unassigned_of_assigned hparsed (by decide) hread (s := s) ⟨20, hs⟩
  have hsighted : Sighted comparing (beforeAt s) := by
    refine hiff.mpr ?_
    rintro n x _ _ ⟨stmt, hstmt, hd⟩
    obtain ⟨i, rfl, hi⟩ := Body.at?_eq_some.mp hstmt
    obtain _ | _ | i := i
    · cases hi
      obtain rfl : boolVar = x := Option.some.inj hd
      rw [hvalue]
      simp
    · cases hi
      exact absurd hd (by simp [Stmt.defined])
    · exact absurd hi (by simp [comparing])
  obtain ⟨f, hf, hne⟩ := hvalues hsighted _ _ hreach (by simp) (by decide) hassigned
  exact ⟨s, f, ⟨20, hs⟩, hsighted, hf, hne⟩

set_option maxRecDepth 100000 in
/-- Compared with a literal, it leaves the result without a value: before the jump behind the
comparison, and where the branches meet the result is the literal of the other one. -/
theorem not_before_ne_unassigned_choosing :
    choosing.Parsed ∧ choosing.DividesNot ∧ choosing.ReadsAssigned ∧
      choosing.Reachable (.stmt 2) ∧ boolVar.isIntLike = true ∧
      choosing.AssignedBefore boolVar (.stmt 2) ∧
      ∀ solver, ∃ s f f', Returns (.ofBody choosing) solver s ∧
        s.before.get? (.stmt 2) = some f ∧ f.get boolVar = .unassigned ∧
        s.before.get? (.stmt 4) = some f' ∧ f'.get boolVar = .const 1 := by
  have hentry : ∀ x ∈ listedFrom [.stmt 2, .stmt 4, .stmt 5, .stmt 6] .entry,
      x ∈ choosing.params := by decide
  have hedges : ∀ e ∈ (Cfg.ofBody choosing).edges,
      ∀ x ∈ listedFrom [.stmt 2, .stmt 4, .stmt 5, .stmt 6] e.target,
        (choosing.at? e.source).bind Stmt.defined = some x ∨
          x ∈ listedFrom [.stmt 2, .stmt 4, .stmt 5, .stmt 6] e.source := by
    decide
  refine ⟨?_, by decide, Body.readsAssigned_of_listed hentry hedges (by decide), ?_, by decide,
    Body.assignedBefore_of_listed hentry hedges (by decide), fun solver => ?_⟩
  · exact Body.parsed_of_mem
      ("class M\x7bstatic boolean f(long p,int c)\x7bboolean x;if(c==0)goto A;x=p<0;goto J;A:x=1;" ++
        "J:if(x==1)goto T;return x;T:return x;\x7d\x7d")
      (toList_append_of_eq String.toList_ofList String.toList_ofList) (by decide +kernel)
  · have hfirst : choosing.Path [.entry] (.stmt 0) := .step .entry (by decide)
    have hsecond : choosing.Path [.stmt 0, .entry] (.stmt 1) := hfirst.step (by decide)
    exact ⟨_, hsecond.step (by decide)⟩
  · have hout : (solveWithin (.ofBody choosing) solver 40).map (fun s =>
        ((s.before.get? (.stmt 2)).map (·.get boolVar),
          (s.before.get? (.stmt 4)).map (·.get boolVar))) =
        some (some .unassigned, some (.const 1)) := by
      cases solver <;> decide +kernel
    obtain ⟨s, hs, hvalues⟩ := Option.map_eq_some_iff.mp hout
    obtain ⟨hbranch, hjoin⟩ := Prod.mk.inj hvalues
    obtain ⟨f, hf, hget⟩ := Option.map_eq_some_iff.mp hbranch
    obtain ⟨f', hf', hget'⟩ := Option.map_eq_some_iff.mp hjoin
    exact ⟨s, f, f', ⟨40, hs⟩, hf, hget, hf', hget'⟩

end Constants

end TacFlow
