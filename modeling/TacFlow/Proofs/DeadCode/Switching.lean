import Mathlib.Data.List.Nodup
import TacFlow.Proofs.DeadCode.Pruning

/-!
# Switches and conditions

A switch takes the cases whose label is the value of its subject, and a condition tests the subject
against a literal. A literal is wrapped to 32 bits when it is evaluated, and a label is compared as it
was written, so the two decide alike exactly if no label outside of the 32-bit range is one number as
written and another one wrapped.
-/

namespace TacFlow.DeadCode

variable {b : Body} {constants : Point → Env} {p q : Point} {f : Env} {x : Var} {n : Int}
  {cases : List (Int × Nat)} {default : Option Nat}

/-! ## Tests -/

/-- The condition that the subject of a switch is a label. -/
def labelTest (x : Var) (label : Int) : Expr :=
  .binary .eq (.var x) (.lit label)

/-- Where control goes on if the cases are chosen by their tests: at those whose test holds, or at
the default if every test fails. -/
def TakenByTests (f : Env) (x : Var) (cases : List (Int × Nat)) (default : Option Nat)
    (q : Point) : Prop :=
  (∃ c ∈ cases, (labelTest x c.1).eval f = .const 1 ∧ q = .stmt c.2) ∨
    (∀ c ∈ cases, (labelTest x c.1).eval f = .const 0) ∧ ∃ k, default = some k ∧ q = .stmt k

/-- Where control goes on if the cases are chosen by their labels. -/
def TakenByLabels (n : Int) (cases : List (Int × Nat)) (default : Option Nat) (q : Point) : Prop :=
  (∃ c ∈ cases, c.1 = n ∧ q = .stmt c.2) ∨
    (∀ c ∈ cases, c.1 ≠ n) ∧ ∃ k, default = some k ∧ q = .stmt k

/-- The labels of a switch are the value both as written and wrapped, or neither way. -/
def LabelsAgree (n : Int) (cases : List (Int × Nat)) : Prop :=
  ∀ c ∈ cases, c.1 = n ↔ wrap32 c.1 = n

/-- Labels within 32 bits agree with any value. -/
theorem labelsAgree_of_wrap32_eq (h : ∀ c ∈ cases, wrap32 c.1 = c.1) : LabelsAgree n cases :=
  fun c hc => by rw [h c hc]

/-- A test compares the value with the wrapped label. -/
theorem eval_labelTest (hx : f.get x = .const n) (label : Int) :
    (labelTest x label).eval f = .const (truth (wrap32 label = n)) := by
  have hcomm : (n = wrap32 label) = (wrap32 label = n) := propext eq_comm
  simp only [labelTest, Expr.eval, Value.combine, BinOp.isDivision, hx, BinOp.apply, hcomm]
  cases decide (wrap32 label = n) <;> rfl

theorem eval_labelTest_eq_one (hx : f.get x = .const n) {label : Int} :
    (labelTest x label).eval f = .const 1 ↔ wrap32 label = n := by
  rw [eval_labelTest hx]
  by_cases h : wrap32 label = n <;> simp [h, truth]

theorem eval_labelTest_eq_zero (hx : f.get x = .const n) {label : Int} :
    (labelTest x label).eval f = .const 0 ↔ wrap32 label ≠ n := by
  rw [eval_labelTest hx]
  by_cases h : wrap32 label = n <;> simp [h, truth]

/-! ## Cases -/

/-- The walk goes on from a switch on a known value by the labels. -/
theorem mem_liveSuccs_iff_takenByLabels (hs : b.at? p = some (.switch x cases default))
    (hx : (constants p).get x = .const n) :
    q ∈ liveSuccs (.ofBody b) constants p ↔ TakenByLabels n cases default q := by
  obtain ⟨i, rfl, hi⟩ := Body.at?_eq_some.mp hs
  rw [mem_liveSuccs_iff, passes_iff_outEdges]
  simp only [Keeps, hs, hx, Value.const.injEq, forall_eq', mem_outEdges_switch hi]
  constructor
  · rintro ⟨e, ⟨c, hc, rfl⟩ | ⟨k, hk, rfl⟩, ⟨hkind, hn⟩ | ⟨hkind, hnone⟩, rfl⟩
    · exact Or.inl ⟨c, hc, Option.some.inj hn, rfl⟩
    · exact absurd hkind (by simp)
    · exact absurd hkind (by simp)
    · exact Or.inr ⟨hnone, k, hk, rfl⟩
  · rintro (⟨c, hc, hn, rfl⟩ | ⟨hnone, k, hk, rfl⟩)
    · exact ⟨_, Or.inl ⟨c, hc, rfl⟩, Or.inl ⟨rfl, congrArg some hn⟩, rfl⟩
    · exact ⟨_, Or.inr ⟨k, hk, rfl⟩, Or.inr ⟨rfl, hnone⟩, rfl⟩

/-- The tests choose by the wrapped labels. -/
theorem takenByTests_iff (hx : f.get x = .const n) :
    TakenByTests f x cases default q ↔
      TakenByLabels n (cases.map fun c => (wrap32 c.1, c.2)) default q := by
  simp only [TakenByTests, TakenByLabels, eval_labelTest_eq_one hx, eval_labelTest_eq_zero hx,
    List.mem_map, exists_exists_and_eq_and, forall_exists_index, and_imp,
    forall_apply_eq_imp_iff₂]

theorem takenByTests_iff_takenByLabels (hx : f.get x = .const n) (h : LabelsAgree n cases) :
    TakenByTests f x cases default q ↔ TakenByLabels n cases default q := by
  have hall : (∀ c ∈ cases, wrap32 c.1 ≠ n) ↔ ∀ c ∈ cases, c.1 ≠ n :=
    forall₂_congr fun c hc => not_congr (h c hc).symm
  have hany : (∃ c ∈ cases, wrap32 c.1 = n ∧ q = .stmt c.2) ↔
      ∃ c ∈ cases, c.1 = n ∧ q = .stmt c.2 :=
    exists_congr fun c => and_congr_right fun hc => and_congr_left fun _ => (h c hc).symm
  simp only [TakenByTests, TakenByLabels, eval_labelTest_eq_one hx, eval_labelTest_eq_zero hx,
    hall, hany]

/-- If no two jumps of a switch have the same target, the target of a case tells whether the case is
taken. -/
theorem stmt_takenByLabels_iff (hnodup : (cases.map (·.2) ++ default.toList).Nodup)
    {c : Int × Nat} (hc : c ∈ cases) : TakenByLabels n cases default (.stmt c.2) ↔ c.1 = n := by
  obtain ⟨hcases, _, hdisjoint⟩ := List.nodup_append.mp hnodup
  constructor
  · rintro (⟨d, hd, hn, htarget⟩ | ⟨_, k, hk, htarget⟩)
    · rwa [List.inj_on_of_nodup_map hcases hc hd (Point.stmt.inj htarget)]
    · refine absurd (Point.stmt.inj htarget) (hdisjoint _ (List.mem_map_of_mem hc) _ ?_)
      exact Option.mem_toList.mpr hk
  · exact fun hn => Or.inl ⟨c, hc, hn, rfl⟩

/-- **A switch on a known value goes on where the tests of its labels lead, if the labels agree with
the value.** Each test has a truth value, and labels within 32 bits always agree. Where no two jumps
of the switch have the same target, the labels must agree for it. -/
theorem mem_liveSuccs_iff_takenByTests (hs : b.at? p = some (.switch x cases default))
    (hx : (constants p).get x = .const n) :
    (∀ label, (labelTest x label).eval (constants p) = .const (truth (wrap32 label = n))) ∧
      ((∀ c ∈ cases, wrap32 c.1 = c.1) → LabelsAgree n cases) ∧
      (LabelsAgree n cases → ∀ q, q ∈ liveSuccs (.ofBody b) constants p ↔
        TakenByTests (constants p) x cases default q) ∧
      ((cases.map (·.2) ++ default.toList).Nodup →
        (∀ q, q ∈ liveSuccs (.ofBody b) constants p ↔
          TakenByTests (constants p) x cases default q) → LabelsAgree n cases) := by
  refine ⟨eval_labelTest hx, labelsAgree_of_wrap32_eq, fun hagree q => ?_,
    fun hnodup htaken c hc => ?_⟩
  · rw [mem_liveSuccs_iff_takenByLabels hs hx, takenByTests_iff_takenByLabels hx hagree]
  · -- the target of the case is taken by labels and by wrapped labels alike
    have hwrapped : (wrap32 c.1, c.2) ∈ cases.map fun d => (wrap32 d.1, d.2) :=
      List.mem_map_of_mem (f := fun d : Int × Nat => (wrap32 d.1, d.2)) hc
    have hsame := htaken (.stmt c.2)
    rw [mem_liveSuccs_iff_takenByLabels hs hx, takenByTests_iff hx,
      stmt_takenByLabels_iff hnodup hc] at hsame
    refine hsame.trans (stmt_takenByLabels_iff ?_ hwrapped)
    rwa [List.map_map, show ((·.2) ∘ fun d : Int × Nat => (wrap32 d.1, d.2)) = (·.2) from rfl]

/-! ## Examples -/

/-- A method `int f()` that assigns a number to `x` and switches on it, with a case for the same
number and a default. -/
def choosingBy (number : Int) : Body where
  method := ⟨⟨"M", 0⟩, ⟨.primitive .int, "f", []⟩⟩
  params := []
  vars := [intVar 0 "x"]
  stmts := [
    .assign (.var (intVar 0 "x")) (.lit number),
    .switch (intVar 0 "x") [(number, 2)] (some 3),
    .ret (some (.var (intVar 0 "x"))),
    .ret (some (.var (intVar 0 "x")))]
  lines := [1, 1, 1, 1]

set_option maxRecDepth 100000 in
/-- With the number 7 the case is taken, as its test tells. -/
theorem mem_liveSuccs_iff_takenByTests_choosingBy :
    (choosingBy 7).Parsed ∧ ∃ cs,
      Constants.Returns (.ofBody (choosingBy 7)) .worklist cs ∧
        TakenByTests (Constants.beforeAt cs (.stmt 1)) (intVar 0 "x") [(7, 2)] (some 3) (.stmt 2) := by
  refine ⟨Body.parsed_of_mem
    ("class M\x7bstatic int f()\x7bint x;x=7;switch(x)\x7bcase 7:goto A;default:goto D;\x7d" ++
      "A:return x;D:return x;\x7d\x7d")
    (toList_append_of_eq String.toList_ofList String.toList_ofList) (by decide +kernel), ?_⟩
  have hsolve : (Constants.solveWithin (.ofBody (choosingBy 7)) .worklist 24).map (fun s =>
      ((Constants.beforeAt s (.stmt 1)).get (intVar 0 "x"),
        liveSuccs (.ofBody (choosingBy 7)) (Constants.beforeAt s) (.stmt 1))) =
      some (.const 7, [.stmt 2]) := by
    decide +kernel
  obtain ⟨cs, hcs, hfacts⟩ := Option.map_eq_some_iff.mp hsolve
  obtain ⟨hvalue, hsuccs⟩ := Prod.mk.inj hfacts
  have hswitch : (choosingBy 7).at? (.stmt 1) = some (.switch (intVar 0 "x") [(7, 2)] (some 3)) := rfl
  obtain ⟨_, hwrapped, htaken, _⟩ := mem_liveSuccs_iff_takenByTests hswitch hvalue
  exact ⟨cs, ⟨24, hcs⟩, (htaken (hwrapped (by decide)) (.stmt 2)).mp (by rw [hsuccs]; simp)⟩

set_option maxRecDepth 100000 in
/-- With a number of 33 bits, which is 1 when it is assigned, the walk goes on at the default although
the test of the case holds, and the statement of the case is reported as dead. -/
theorem not_mem_liveSuccs_iff_takenByTests_choosingBy :
    (choosingBy 4294967297).Parsed ∧
      ∀ solver, ∃ cs live, Constants.Returns (.ofBody (choosingBy 4294967297)) solver cs ∧
        Liveness.Returns (.ofBody (choosingBy 4294967297)) live ∧
        liveSuccs (.ofBody (choosingBy 4294967297)) (Constants.beforeAt cs) (.stmt 1) = [.stmt 3] ∧
        (labelTest (intVar 0 "x") 4294967297).eval (Constants.beforeAt cs (.stmt 1)) = .const 1 ∧
        TakenByTests (Constants.beforeAt cs (.stmt 1)) (intVar 0 "x") [(4294967297, 2)] (some 3)
          (.stmt 2) ∧
        ofSolutions (.ofBody (choosingBy 4294967297)) cs live = [2] := by
  refine ⟨Body.parsed_of_mem
    ("class M\x7bstatic int f()\x7bint x;x=4294967297;switch(x)\x7bcase 4294967297:goto A;" ++
      "default:goto D;\x7dA:return x;D:return x;\x7d\x7d")
    (toList_append_of_eq String.toList_ofList String.toList_ofList) (by decide +kernel),
    fun solver => ?_⟩
  have hsolve : ((Constants.solveWithin (.ofBody (choosingBy 4294967297)) solver 24).bind fun s =>
      (Liveness.solveWithin (.ofBody (choosingBy 4294967297)) 24).map fun live =>
        ((Constants.beforeAt s (.stmt 1)).get (intVar 0 "x"),
          liveSuccs (.ofBody (choosingBy 4294967297)) (Constants.beforeAt s) (.stmt 1),
          ofSolutions (.ofBody (choosingBy 4294967297)) s live)) =
      some (.const 1, [.stmt 3], [2]) := by
    cases solver <;> decide +kernel
  obtain ⟨cs, hcs, hfacts⟩ := Option.bind_eq_some_iff.mp hsolve
  obtain ⟨live, hlive, hfacts⟩ := Option.map_eq_some_iff.mp hfacts
  obtain ⟨hvalue, hfacts⟩ := Prod.mk.inj hfacts
  obtain ⟨hsuccs, hdead⟩ := Prod.mk.inj hfacts
  have htest : (labelTest (intVar 0 "x") 4294967297).eval (Constants.beforeAt cs (.stmt 1)) =
      .const 1 := (eval_labelTest_eq_one hvalue).mpr (by decide)
  exact ⟨cs, live, ⟨24, hcs⟩, ⟨24, hlive⟩, hsuccs, htest,
    Or.inl ⟨_, List.mem_singleton_self _, htest, rfl⟩, hdead⟩

end TacFlow.DeadCode
