import Mathlib.Logic.Relation
import TacFlow.Calls.Graph
import TacFlow.Proofs.Code.Execution

/-!
# Execution across methods

What it means to run a program rather than a single body. Calls are no longer answered by the world:
a call enters one of the callees of its call site, in a fresh frame in which only the parameters are
assigned, and the calling frame waits. A return statement sends the callee to its exit with a value,
or without one if it names no variable or an unassigned one, and from the exit control goes back to
the frame that waits. The variable for the result of the call then holds that value, and is
unassigned if there is none. An unassigned argument does not stop a call either: the parameter is
unassigned then. Frames of one method share no variables, so recursion needs nothing special.

All other statements run as they do in a single body. What the world answers to loads, allocations
and casts is left open at every step.
-/

namespace TacFlow

open Relation (ReflTransGen)

/-- Gives a variable a value, or makes it unassigned. -/
def Store.set (σ : Store) (x : Var) (v : Option Word) : Store :=
  fun y => if y = x then v else σ y

/-- The value of a literal or a variable. No other expressions are passed to a callee or returned
from it. -/
def Store.value (σ : Store) : Expr → Option Word
  | .lit n => some (BitVec.ofInt 32 n)
  | .var x => σ x
  | _ => none

/-- The variables of a fresh frame: each parameter has the value of its argument. -/
def Store.passed (params : List Var) (args : List Expr) (σ : Store) : Store :=
  (params.zip args).foldl (fun τ (x, e) => τ.set x (σ.value e)) fun _ => none

/-- The variables of a frame that a call has returned to. -/
def Store.receive (σ : Store) (result : Option Var) (v : Option Word) : Store :=
  match result with
  | some x => σ.set x v
  | none => σ

@[simp] theorem Store.receive_self (σ : Store) (x : Var) (v : Option Word) :
    σ.receive (some x) v x = v := by
  simp [receive, set]

theorem Store.receive_ne (σ : Store) {result : Option Var} {y : Var} (h : result ≠ some y)
    (v : Option Word) : σ.receive result v y = σ y := by
  cases result with
  | none => rfl
  | some x =>
      have hyx : y ≠ x := fun hq => h (congrArg some hq.symm)
      simp [receive, set, hyx]

/-- A statement that control leaves the frame at. -/
def Stmt.leavesFrame : Stmt → Bool
  | .invoke _ _ | .ret _ => true
  | _ => false

/-- A method that is being executed. -/
structure Frame where
  method : MethodId
  point : Point
  store : Store

/-- The frame that runs, with what it has returned, and the frames that wait for it, the latest
first. -/
structure Stack where
  top : Frame
  returned : Option Word
  waiting : List Frame

variable {code : MethodId → Option Body} {callees : CallSite → List MethodId}

/-- One step of a program, given the bodies of the methods and the callees of the call sites. -/
inductive Step (code : MethodId → Option Body) (callees : CallSite → List MethodId) :
    Stack → Stack → Prop where
  /-- Any other statement runs as in a single body. -/
  | flow {m : MethodId} {b : Body} {p : Point} {σ : Store} {rest : List Frame} {w : World}
      {t t' : Trace} {c : Config} : code m = some b → p ≠ .exit →
      (∀ s, b.at? p = some s → s.leavesFrame = false) → b.step w ⟨p, σ⟩ t = .done c t' →
      Step code callees ⟨⟨m, p, σ⟩, none, rest⟩ ⟨⟨m, c.point, c.store⟩, none, rest⟩
  /-- A call enters a callee that has a body. -/
  | call {m k : MethodId} {b b' : Body} {i : Nat} {σ : Store} {rest : List Frame}
      {result : Option Var} {c : Call} : code m = some b →
      b.stmts[i]? = some (.invoke result c) → k ∈ callees ⟨i, m⟩ → code k = some b' →
      Step code callees ⟨⟨m, .stmt i, σ⟩, none, rest⟩
        ⟨⟨k, .entry, σ.passed b'.params c.args⟩, none, ⟨m, .stmt i, σ⟩ :: rest⟩
  /-- A return goes to the exit. -/
  | ret {m : MethodId} {b : Body} {i : Nat} {σ : Store} {rest : List Frame} {value : Option Expr} :
      code m = some b → b.stmts[i]? = some (.ret value) →
      Step code callees ⟨⟨m, .stmt i, σ⟩, none, rest⟩
        ⟨⟨m, .exit, σ⟩, value.bind σ.value, rest⟩
  /-- From the exit control goes back behind the call. -/
  | leave {m k : MethodId} {b : Body} {i : Nat} {σ τ : Store} {rest : List Frame}
      {v : Option Word} {result : Option Var} {c : Call} : code m = some b →
      b.stmts[i]? = some (.invoke result c) →
      Step code callees ⟨⟨k, .exit, τ⟩, v, ⟨m, .stmt i, σ⟩ :: rest⟩
        ⟨⟨m, b.following i, σ.receive result v⟩, none, rest⟩

/-- A program starts at the entry of a method with arbitrary arguments. -/
def Stack.start (entry : MethodId) (b : Body) (args : Var → Word) : Stack :=
  ⟨⟨entry, .entry, (b.start args).store⟩, none, []⟩

/-- A program that is started in a method can come to some stack. -/
def Reaches (code : MethodId → Option Body) (callees : CallSite → List MethodId) (entry : MethodId)
    (st : Stack) : Prop :=
  ∃ b args, code entry = some b ∧ ReflTransGen (Step code callees) (.start entry b args) st

/-- **What holds at the start and is kept by every step holds whenever.** -/
theorem Reaches.invariant {P : Stack → Prop} {entry : MethodId} {st : Stack}
    (hst : Reaches code callees entry st)
    (hstart : ∀ b args, code entry = some b → P (.start entry b args))
    (hstep : ∀ st st', P st → Step code callees st st' → P st') : P st := by
  obtain ⟨b, args, hb, hrun⟩ := hst
  induction hrun with
  | refl => exact hstart b args hb
  | tail _ hs ih => exact hstep _ _ ih hs

end TacFlow
