import TacFlow.Proofs.Code.Shape
import TacFlow.Proofs.Code.Word
import TacFlow.Proofs.Flow.Graph

/-!
# Execution

What it means to run a body. Variables hold words, a local variable is unassigned until it is
written, and reading it before blocks the run. Everything that happens outside of the variables is
an event: loads and stores, allocations, casts, calls, divisions by zero, the decisions of branches
and switches, and the return. The *world* answers loads, allocations, casts and calls with words of
its choice. Its answer may depend on all events so far, so that no assumption is made about memory
or about the called methods.

A run starts at the entry, goes from point to point, and stays at the exit.
-/

namespace TacFlow

/-- A place in memory. -/
inductive Cell where
  | field (base : Word) (name : String)
  | staticField (cls name : String)
  | element (base index : Word)
  deriving DecidableEq, Repr

/-- What a run does other than compute with variables. -/
inductive Event where
  | load (cell : Cell)
  | store (cell : Cell) (value : Word)
  | alloc (type : Ty)
  | cast (type : Ty) (value : Word)
  | call (kind : CallKind) (target : MethodId) (receiver : Option Word) (args : List Word)
  | divideByZero
  | decide (next : Point)
  | ret (value : Option Word)
  deriving DecidableEq, Repr

/-- The events of a run, the latest last. -/
abbrev Trace : Type := List Event

/-- The answers to the events that ask for one. -/
abbrev World : Type := Trace → Word

/-- The values of the variables that have been assigned. -/
abbrev Store : Type := Var → Option Word

/-- Assigns a variable. -/
def Store.put (σ : Store) (x : Var) (v : Word) : Store :=
  fun y => if y = x then some v else σ y

/-- How a part of a run ends. -/
inductive Run (α : Type) where
  /-- With a result, after some events. -/
  | done (result : α) (trace : Trace)
  /-- With an exception. -/
  | threw (trace : Trace)
  /-- It cannot go on: it reads an unassigned variable, or follows a jump without a target. -/
  | blocked

namespace Run

variable {α β γ δ : Type}

/-- Goes on from a result. -/
def bind (r : Run α) (next : α → Trace → Run β) : Run β :=
  match r with
  | done a t => next a t
  | threw t => threw t
  | blocked => blocked

theorem bind_eq_done {r : Run α} {next : α → Trace → Run β} {b : β} {t' : Trace} :
    r.bind next = done b t' ↔ ∃ a t, r = done a t ∧ next a t = done b t' := by
  cases r with
  | done a t =>
      constructor
      · intro h; exact ⟨a, t, rfl, h⟩
      · rintro ⟨_, _, hr, h⟩; cases hr; exact h
  | threw t => simp [bind]
  | blocked => simp [bind]

theorem bind_eq_blocked {r : Run α} {next : α → Trace → Run β} :
    r.bind next = blocked ↔ r = blocked ∨ ∃ a t, r = done a t ∧ next a t = blocked := by
  cases r with
  | done a t =>
      constructor
      · intro h; exact Or.inr ⟨a, t, rfl, h⟩
      · rintro (h | ⟨_, _, hr, h⟩)
        · cases h
        · cases hr; exact h
  | threw t => simp [bind]
  | blocked => simp [bind]

theorem bind_congr {r r' : Run α} {next next' : α → Trace → Run β} (hr : r = r')
    (hnext : ∀ a t, next a t = next' a t) : r.bind next = r'.bind next' := by
  rw [hr, show next = next' from funext fun a => funext (hnext a)]

/-- A run that is not blocked is matched by one with the same events and a related result. -/
inductive Matched (R : α → β → Prop) : Run α → Run β → Prop where
  | done {a : α} {b : β} {t : Trace} : R a b → Matched R (.done a t) (.done b t)
  | threw {t : Trace} : Matched R (.threw t) (.threw t)
  | blocked {r : Run β} : Matched R .blocked r

theorem Matched.bind {R : α → β → Prop} {S : γ → δ → Prop} {r : Run α} {r' : Run β}
    {next : α → Trace → Run γ} {next' : β → Trace → Run δ} (h : Matched R r r')
    (hnext : ∀ a b t, r = .done a t → R a b → Matched S (next a t) (next' b t)) :
    Matched S (r.bind next) (r'.bind next') := by
  cases h with
  | @done a b t hab => exact hnext a b t rfl hab
  | threw => exact .threw
  | blocked => exact .blocked

theorem Matched.imp {R S : α → β → Prop} {r : Run α} {r' : Run β} (h : Matched R r r')
    (himp : ∀ a b t, r = .done a t → R a b → S a b) : Matched S r r' := by
  cases h with
  | @done a b t hab => exact .done (himp a b t rfl hab)
  | threw => exact .threw
  | blocked => exact .blocked

theorem Matched.of_eq {R : α → α → Prop} (hR : ∀ a, R a a) (r : Run α) : Matched R r r := by
  cases r with
  | done a t => exact .done (hR a)
  | threw t => exact .threw
  | blocked => exact .blocked

end Run

/-! ## Expressions -/

/-- Reads a variable. -/
def Store.read (σ : Store) (x : Var) (t : Trace) : Run Word :=
  match σ x with
  | some v => .done v t
  | none => .blocked

/-- Reads the receiver of a call, if there is one. -/
def Store.readAny (σ : Store) (x : Option Var) (t : Trace) : Run (Option Word) :=
  match x with
  | some x => (σ.read x t).bind fun v t => .done (some v) t
  | none => .done none t

/-- Takes the answer of the world to an event. -/
def World.ask (w : World) (e : Event) (t : Trace) : Run Word :=
  .done (w (t ++ [e])) (t ++ [e])

mutual

/-- Evaluates an expression. -/
def Expr.run (w : World) (σ : Store) : Expr → Trace → Run Word
  | .lit n, t => .done (BitVec.ofInt 32 n) t
  | .var x, t => σ.read x t
  | .binary op left right, t =>
    (left.run w σ t).bind fun a t => (right.run w σ t).bind fun b t =>
      match op.onWords a b with
      | some v => .done v t
      | none => .threw (t ++ [.divideByZero])
  | .alloc type, t => w.ask (.alloc type) t
  | .cast type operand, t => (operand.run w σ t).bind fun v t => w.ask (.cast type v) t
  | .field base name, t => (σ.read base t).bind fun v t => w.ask (.load (.field v name)) t
  | .staticField cls name, t => w.ask (.load (.staticField cls name)) t
  | .element base index, t =>
    (σ.read base t).bind fun v t => (index.run w σ t).bind fun i t =>
      w.ask (.load (.element v i)) t
  | .call kind target receiver args, t =>
    (σ.readAny receiver t).bind fun v t => (runAll w σ args t).bind fun vs t =>
      w.ask (.call kind target v vs) t

/-- Evaluates expressions one after another. -/
def Expr.runAll (w : World) (σ : Store) : List Expr → Trace → Run (List Word)
  | [], t => .done [] t
  | e :: rest, t =>
    (e.run w σ t).bind fun v t => (runAll w σ rest t).bind fun vs t => .done (v :: vs) t

end

/-! ## Statements -/

/-- Where a run stands: the next point, and the values of the variables. -/
structure Config where
  point : Point
  store : Store

/-- The memory that a place stands for. A variable is not in memory. -/
def Place.cell (w : World) (σ : Store) : Place → Trace → Run Cell
  | .var _, _ => .blocked
  | .field base name, t => (σ.read base t).bind fun v t => .done (.field v name) t
  | .staticField cls name, t => .done (.staticField cls name) t
  | .element base index, t =>
    (σ.read base t).bind fun v t => (index.run w σ t).bind fun i t => .done (.element v i) t

/-- Goes to the point that was decided for, if it exists. -/
def Config.choose (σ : Store) (next : Option Point) (t : Trace) : Run Config :=
  match next with
  | some p => .done ⟨p, σ⟩ (t ++ [.decide p])
  | none => .blocked

/-- The target of the first case with a given value. -/
def caseFor (cases : List (Int × Nat)) (v : Word) : Option Nat :=
  (cases.find? (·.1 = v.toInt)).map (·.2)

/-- Runs the statement at a position. A comparison gives one where it holds, and a branch is taken
on one. -/
def Stmt.run (w : World) (b : Body) (i : Nat) (σ : Store) : Stmt → Trace → Run Config
  | .assign (.var x) value, t =>
    (value.run w σ t).bind fun v t => .done ⟨b.following i, σ.put x v⟩ t
  | .assign place value, t =>
    (place.cell w σ t).bind fun cell t => (value.run w σ t).bind fun v t =>
      .done ⟨b.following i, σ⟩ (t ++ [.store cell v])
  | .invoke (some x) call, t =>
    (call.toExpr.run w σ t).bind fun v t => .done ⟨b.following i, σ.put x v⟩ t
  | .invoke none call, t =>
    (call.toExpr.run w σ t).bind fun _ t => .done ⟨b.following i, σ⟩ t
  | .branch cond target, t =>
    (cond.run w σ t).bind fun v t =>
      Config.choose σ (if v = 1#32 then target.map .stmt else some (b.following i)) t
  | .goto target, t =>
    match target with
    | some k => .done ⟨.stmt k, σ⟩ t
    | none => .blocked
  | .switch x cases default, t =>
    (σ.read x t).bind fun v t => Config.choose σ (((caseFor cases v).or default).map .stmt) t
  | .ret none, t => .done ⟨.exit, σ⟩ (t ++ [.ret none])
  | .ret (some value), t =>
    (value.run w σ t).bind fun v t => .done ⟨.exit, σ⟩ (t ++ [.ret (some v)])
  | .nop, t => .done ⟨b.following i, σ⟩ t

namespace Body

/-- One step of a run. -/
def step (b : Body) (w : World) (c : Config) (t : Trace) : Run Config :=
  match c.point with
  | .entry => .done ⟨b.first, c.store⟩ t
  | .exit => .done c t
  | .stmt i =>
    match b.stmts[i]? with
    | some s => s.run w b i c.store t
    | none => .blocked

/-- Where a run starts: the parameters have their values, and nothing else is assigned. -/
def start (b : Body) (args : Var → Word) : Config where
  point := .entry
  store x := if x ∈ b.params then some (args x) else none

/-- A run of some steps. -/
def exec (b : Body) (w : World) (args : Var → Word) : Nat → Run Config
  | 0 => .done (b.start args) []
  | n + 1 => (exec b w args n).bind (b.step w)

end Body

/-! ## What a statement does to the variables -/

variable {w : World} {b : Body} {i : Nat} {σ : Store} {s : Stmt} {t t' : Trace} {c c' : Config}

theorem Config.choose_eq_done {next : Option Point} (h : Config.choose σ next t = .done c t') :
    next = some c.point ∧ c.store = σ := by
  cases next with
  | none => exact absurd h (by simp [Config.choose])
  | some p =>
      simp only [Config.choose, Run.done.injEq] at h
      rw [← h.1]
      exact ⟨rfl, rfl⟩

/-- A statement that defines a variable evaluates its expression and stores the value. -/
theorem Stmt.run_of_definition {x : Var} {e : Expr} (hs : s.definition = some (x, e))
    (h : s.run w b i σ t = .done c t') :
    ∃ v, e.run w σ t = .done v t' ∧ c = ⟨b.following i, σ.put x v⟩ := by
  have key : s.run w b i σ t =
      (e.run w σ t).bind fun v t => .done ⟨b.following i, σ.put x v⟩ t := by
    unfold definition at hs
    split at hs
    · cases hs; rfl
    · cases hs; rfl
    · exact absurd hs (by simp)
  rw [key] at h
  obtain ⟨v, u, he, hc⟩ := Run.bind_eq_done.mp h
  cases hc
  exact ⟨v, he, rfl⟩

/-- Any other statement leaves the variables as they are. -/
theorem Stmt.store_of_run (hs : s.definition = none) (h : s.run w b i σ t = .done c t') :
    c.store = σ := by
  cases s with
  | assign place value =>
      cases place with
      | var x => exact absurd hs (by simp [definition])
      | _ =>
          simp only [Stmt.run, Run.bind_eq_done] at h
          obtain ⟨_, _, _, _, _, _, hc⟩ := h
          cases hc; rfl
  | invoke result call =>
      cases result with
      | some x => exact absurd hs (by simp [definition])
      | none =>
          obtain ⟨_, _, _, hc⟩ := Run.bind_eq_done.mp h
          cases hc; rfl
  | branch cond target =>
      obtain ⟨v, u, _, hc⟩ := Run.bind_eq_done.mp h
      exact (Config.choose_eq_done hc).2
  | goto target =>
      cases target with
      | none => exact absurd h (by simp [Stmt.run])
      | some k => cases h; rfl
  | switch x cases default =>
      obtain ⟨v, u, _, hc⟩ := Run.bind_eq_done.mp h
      exact (Config.choose_eq_done hc).2
  | ret value =>
      cases value with
      | none => cases h; rfl
      | some e =>
          obtain ⟨_, _, _, hc⟩ := Run.bind_eq_done.mp h
          cases hc; rfl
  | nop => cases h; rfl

/-! ## Runs follow edges -/

theorem caseFor_mem {cases : List (Int × Nat)} {v : Word} {k : Nat} (h : caseFor cases v = some k) :
    (v.toInt, k) ∈ cases := by
  obtain ⟨⟨n, k'⟩, hf, rfl⟩ := Option.map_eq_some_iff.mp h
  have hn : n = v.toInt := by simpa using List.find?_some hf
  exact hn ▸ List.mem_of_find?_eq_some hf

/-- A statement goes on to the end of one of its edges. -/
theorem Stmt.run_along (h : s.run w b i σ t = .done c t') :
    ∃ e, some e ∈ Cfg.exitsOf b i s ∧ e.target = c.point := by
  cases s with
  | assign place value =>
      -- whatever is assigned to, control goes to the next statement
      refine ⟨_, List.mem_singleton.mpr rfl, ?_⟩
      cases place <;> simp only [Stmt.run, Run.bind_eq_done] at h <;> grind
  | invoke result call =>
      refine ⟨_, List.mem_singleton.mpr rfl, ?_⟩
      cases result <;> simp only [Stmt.run, Run.bind_eq_done] at h <;> grind
  | branch cond target =>
      obtain ⟨v, u, _, hc⟩ := Run.bind_eq_done.mp h
      have hnext := (Config.choose_eq_done hc).1
      split at hnext
      · obtain ⟨k, rfl, hk⟩ := Option.map_eq_some_iff.mp hnext
        exact ⟨⟨.stmt i, .stmt k, .ifTrue, none⟩, by simp [Cfg.exitsOf], hk⟩
      · exact ⟨⟨.stmt i, b.following i, .ifFalse, none⟩, by simp [Cfg.exitsOf],
          Option.some.inj hnext⟩
  | goto target =>
      cases target with
      | none => exact absurd h (by simp [Stmt.run])
      | some k =>
          cases h
          exact ⟨⟨.stmt i, .stmt k, .goto, none⟩, by simp [Cfg.exitsOf], rfl⟩
  | switch x cases default =>
      obtain ⟨v, u, _, hc⟩ := Run.bind_eq_done.mp h
      obtain ⟨k, hk, hp⟩ := Option.map_eq_some_iff.mp (Config.choose_eq_done hc).1
      cases hcase : caseFor cases v with
      | some k' =>
          have : k' = k := by simpa [hcase] using hk
          subst this
          have hmem := List.mem_map_of_mem (f := fun e : Int × Nat =>
            some (Edge.mk (.stmt i) (.stmt e.2) .switchCase (some e.1))) (caseFor_mem hcase)
          exact ⟨_, List.mem_append_left _ hmem, hp⟩
      | none =>
          have : default = some k := by simpa [hcase] using hk
          subst this
          exact ⟨⟨.stmt i, .stmt k, .switchDefault, none⟩, by simp [Cfg.exitsOf], hp⟩
  | ret value =>
      refine ⟨_, List.mem_singleton.mpr rfl, ?_⟩
      cases value <;> simp only [Stmt.run, Run.bind_eq_done] at h <;> grind
  | nop =>
      cases h
      exact ⟨_, List.mem_singleton.mpr rfl, rfl⟩

/-- **A step follows an edge of the graph**, or stays at the exit. -/
theorem Body.step_along (h : b.step w c t = .done c' t') :
    (c.point = .exit ∧ c' = c) ∨ (c.point ≠ .exit ∧ c'.point ∈ (Cfg.ofBody b).succs c.point) := by
  unfold step at h
  split at h
  · rename_i hp
    cases h
    rw [hp]
    exact Or.inr ⟨by simp, Cfg.mem_succs_entry.mpr rfl⟩
  · rename_i hp
    cases h
    exact Or.inl ⟨hp, rfl⟩
  · rename_i i hp
    split at h
    · rename_i s hs
      obtain ⟨e, he, ht⟩ := Stmt.run_along h
      rw [hp]
      exact Or.inr ⟨by simp, Cfg.mem_succs_stmt.mpr ⟨s, hs, e, he, ht⟩⟩
    · exact absurd h (by simp)

/-- The points that a run arrives at are nodes of the graph. -/
theorem Body.point_mem_of_exec (hb : b.Linked) {args : Var → Word} {n : Nat}
    (h : b.exec w args n = .done c t) : c.point ∈ b.points := by
  induction n generalizing c t with
  | zero =>
      cases h
      exact b.entry_mem_points
  | succ n ih =>
      obtain ⟨d, u, hd, hstep⟩ := Run.bind_eq_done.mp h
      rcases step_along hstep with ⟨_, rfl⟩ | ⟨_, hs⟩
      · exact ih hd
      · exact (Cfg.Linked.mem_succs hb hs).1

end TacFlow
