import TacFlow.Proofs.Code.Execution

/-!
# What a run reads

A run depends on the variables that it reads and on no others. It is blocked only where it reads an
unassigned one, and two runs that read the same values do the same: they have the same events, go to
the same point, and write the same value.
-/

namespace TacFlow

variable {w : World} {b : Body} {i : Nat} {σ : Store} {s : Stmt} {t t' : Trace} {c c' : Config}

/-! ## When a run is blocked -/

theorem Store.unassigned_of_blocked {x : Var} (h : σ.read x t = .blocked) : σ x = none := by
  unfold read at h
  split at h
  · exact absurd h (by simp)
  · assumption

theorem Store.unassignedAny_of_blocked {x : Option Var} (h : σ.readAny x t = .blocked) :
    ∃ y ∈ x.toList, σ y = none := by
  cases x with
  | none => exact absurd h (by simp [readAny])
  | some y =>
      rcases Run.bind_eq_blocked.mp h with h | ⟨_, _, _, h⟩
      · exact ⟨y, by simp, unassigned_of_blocked h⟩
      · exact absurd h (by simp)

mutual

/-- An expression that cannot be evaluated reads an unassigned variable. -/
theorem Expr.unassigned_of_blocked : ∀ (e : Expr) {t : Trace}, e.run w σ t = .blocked →
    ∃ x ∈ e.uses, σ x = none
  | .lit _, _, h | .alloc _, _, h | .staticField _ _, _, h => by
      exact absurd h (by simp [run, World.ask])
  | .var x, _, h => ⟨x, by simp [uses], Store.unassigned_of_blocked h⟩
  | .binary op left right, _, h => by
      simp only [uses, List.mem_append]
      rcases Run.bind_eq_blocked.mp h with h | ⟨a, u, _, h⟩
      · obtain ⟨x, hx, hn⟩ := unassigned_of_blocked left h
        exact ⟨x, Or.inl hx, hn⟩
      rcases Run.bind_eq_blocked.mp h with h | ⟨b, u, _, h⟩
      · obtain ⟨x, hx, hn⟩ := unassigned_of_blocked right h
        exact ⟨x, Or.inr hx, hn⟩
      · split at h
        · exact absurd h (by simp)
        · exact absurd h (by simp)
  | .cast _ operand, _, h => by
      rcases Run.bind_eq_blocked.mp h with h | ⟨v, u, _, h⟩
      · exact unassigned_of_blocked operand h
      · exact absurd h (by simp [World.ask])
  | .field base _, _, h => by
      rcases Run.bind_eq_blocked.mp h with h | ⟨v, u, _, h⟩
      · exact ⟨base, by simp [uses], Store.unassigned_of_blocked h⟩
      · exact absurd h (by simp [World.ask])
  | .element base index, _, h => by
      simp only [uses, List.mem_cons]
      rcases Run.bind_eq_blocked.mp h with h | ⟨v, u, _, h⟩
      · exact ⟨base, Or.inl rfl, Store.unassigned_of_blocked h⟩
      rcases Run.bind_eq_blocked.mp h with h | ⟨k, u, _, h⟩
      · obtain ⟨x, hx, hn⟩ := unassigned_of_blocked index h
        exact ⟨x, Or.inr hx, hn⟩
      · exact absurd h (by simp [World.ask])
  | .call _ _ receiver args, _, h => by
      simp only [uses, List.mem_append]
      rcases Run.bind_eq_blocked.mp h with h | ⟨v, u, _, h⟩
      · obtain ⟨x, hx, hn⟩ := Store.unassignedAny_of_blocked h
        exact ⟨x, Or.inl hx, hn⟩
      rcases Run.bind_eq_blocked.mp h with h | ⟨vs, u, _, h⟩
      · obtain ⟨x, hx, hn⟩ := unassignedAll_of_blocked args h
        exact ⟨x, Or.inr hx, hn⟩
      · exact absurd h (by simp [World.ask])

theorem Expr.unassignedAll_of_blocked : ∀ (es : List Expr) {t : Trace},
    runAll w σ es t = .blocked → ∃ x ∈ usesOfAll es, σ x = none
  | [], _, h => by exact absurd h (by simp [runAll])
  | e :: es, _, h => by
      simp only [usesOfAll, List.mem_append]
      rcases Run.bind_eq_blocked.mp h with h | ⟨v, u, _, h⟩
      · obtain ⟨x, hx, hn⟩ := unassigned_of_blocked e h
        exact ⟨x, Or.inl hx, hn⟩
      rcases Run.bind_eq_blocked.mp h with h | ⟨vs, u, _, h⟩
      · obtain ⟨x, hx, hn⟩ := unassignedAll_of_blocked es h
        exact ⟨x, Or.inr hx, hn⟩
      · exact absurd h (by simp)

end

theorem Place.unassigned_of_blocked {p : Place} (hp : ∀ x, p ≠ .var x)
    (h : p.cell w σ t = .blocked) : ∃ x ∈ p.uses, σ x = none := by
  cases p with
  | var x => exact absurd rfl (hp x)
  | field base name =>
      rcases Run.bind_eq_blocked.mp h with h | ⟨v, u, _, h⟩
      · exact ⟨base, by simp [uses, toExpr, Expr.uses], Store.unassigned_of_blocked h⟩
      · exact absurd h (by simp)
  | staticField cls name => exact absurd h (by simp [cell])
  | element base index =>
      simp only [uses, toExpr, Expr.uses, List.mem_cons]
      rcases Run.bind_eq_blocked.mp h with h | ⟨v, u, _, h⟩
      · exact ⟨base, Or.inl rfl, Store.unassigned_of_blocked h⟩
      rcases Run.bind_eq_blocked.mp h with h | ⟨k, u, _, h⟩
      · obtain ⟨x, hx, hn⟩ := Expr.unassigned_of_blocked index h
        exact ⟨x, Or.inr hx, hn⟩
      · exact absurd h (by simp)

/-- A statement that has its targets and cannot be run reads an unassigned variable. -/
theorem Stmt.unassigned_of_blocked (hs : s.isLoose = false) (h : s.run w b i σ t = .blocked) :
    ∃ x ∈ s.uses, σ x = none := by
  cases s with
  | assign place value =>
      simp only [uses, List.mem_append]
      -- a place in memory is evaluated before the value, a variable is not
      by_cases hp : ∃ x, place = .var x
      · obtain ⟨x, rfl⟩ := hp
        rcases Run.bind_eq_blocked.mp h with h | ⟨v, u, _, h⟩
        · obtain ⟨y, hy, hn⟩ := Expr.unassigned_of_blocked value h
          exact ⟨y, Or.inr hy, hn⟩
        · exact absurd h (by simp)
      · have hplace : ∀ x, place ≠ .var x := fun x hq => hp ⟨x, hq⟩
        have hrun : (place.cell w σ t).bind (fun cell t => (value.run w σ t).bind fun v t =>
            .done (Config.mk (b.following i) σ) (t ++ [.store cell v])) = .blocked := by
          cases place with
          | var x => exact absurd rfl (hplace x)
          | _ => exact h
        rcases Run.bind_eq_blocked.mp hrun with h | ⟨cell, u, _, h⟩
        · obtain ⟨y, hy, hn⟩ := Place.unassigned_of_blocked hplace h
          exact ⟨y, Or.inl hy, hn⟩
        rcases Run.bind_eq_blocked.mp h with h | ⟨v, u, _, h⟩
        · obtain ⟨y, hy, hn⟩ := Expr.unassigned_of_blocked value h
          exact ⟨y, Or.inr hy, hn⟩
        · exact absurd h (by simp)
  | invoke result call =>
      have hcall : call.toExpr.run w σ t = .blocked := by
        cases result with
        | none => exact (Run.bind_eq_blocked.mp h).resolve_right (by simp)
        | some x => exact (Run.bind_eq_blocked.mp h).resolve_right (by simp)
      exact Expr.unassigned_of_blocked _ hcall
  | branch cond target =>
      rcases Run.bind_eq_blocked.mp h with h | ⟨v, u, _, h⟩
      · exact Expr.unassigned_of_blocked cond h
      · cases target with
        | none => exact absurd hs (by simp [isLoose])
        | some k =>
            split at h
            · exact absurd h (by simp [Config.choose])
            · exact absurd h (by simp [Config.choose])
  | goto target =>
      cases target with
      | none => exact absurd hs (by simp [isLoose])
      | some k => exact absurd h (by simp [run])
  | switch x cases default =>
      rcases Run.bind_eq_blocked.mp h with h | ⟨v, u, _, h⟩
      · exact ⟨x, by simp [uses], Store.unassigned_of_blocked h⟩
      · cases default with
        | none => exact absurd hs (by simp [isLoose])
        | some k => cases hcase : caseFor cases v <;> simp [hcase, Config.choose] at h
  | ret value =>
      cases value with
      | none => exact absurd h (by simp [run])
      | some e =>
          rcases Run.bind_eq_blocked.mp h with h | ⟨v, u, _, h⟩
          · exact Expr.unassigned_of_blocked e h
          · exact absurd h (by simp)
  | nop => exact absurd h (by simp [run])

/-- **Only reading an unassigned variable blocks a run.** -/
theorem Body.unassigned_of_blocked (hb : b.Linked) {args : Var → Word} {n : Nat}
    (h : b.exec w args n = .blocked) :
    ∃ k c t i s x, b.exec w args k = .done c t ∧ c.point = .stmt i ∧ b.stmts[i]? = some s ∧
      x ∈ s.uses ∧ c.store x = none := by
  induction n with
  | zero => exact absurd h (by simp [exec])
  | succ n ih =>
      rcases Run.bind_eq_blocked.mp h with h | ⟨c, t, hrun, hstep⟩
      · exact ih h
      have hmem := point_mem_of_exec hb hrun
      unfold step at hstep
      split at hstep
      · exact absurd hstep (by simp)
      · exact absurd hstep (by simp)
      · rename_i i hp
        split at hstep
        · rename_i s hs
          obtain ⟨x, hx, hn⟩ :=
            Stmt.unassigned_of_blocked (hb.tight (List.mem_of_getElem? hs)) hstep
          exact ⟨n, c, t, i, s, x, hrun, hp, hs, hx, hn⟩
        · -- there is a statement wherever a run arrives
          rename_i hs
          rw [hp, Body.mem_points] at hmem
          obtain ⟨j, hj, hq⟩ : ∃ j, j < b.stmts.length ∧ Point.stmt i = .stmt j := by
            simpa using hmem
          cases hq
          exact absurd hs (by simp [hj])

/-! ## Runs depend on what is read -/

section

variable {σ' : Store}

theorem Store.read_congr {x : Var} (h : σ x = σ' x) (t : Trace) : σ.read x t = σ'.read x t := by
  unfold read
  rw [h]

theorem Store.readAny_congr {x : Option Var} (h : ∀ y ∈ x.toList, σ y = σ' y) (t : Trace) :
    σ.readAny x t = σ'.readAny x t := by
  cases x with
  | none => rfl
  | some x => rw [readAny, readAny, read_congr (h x (by simp))]

mutual

/-- The value of an expression depends on the variables that it reads. -/
theorem Expr.run_congr : ∀ (e : Expr) (t : Trace), (∀ x ∈ e.uses, σ x = σ' x) →
    e.run w σ t = e.run w σ' t
  | .lit _, _, _ | .alloc _, _, _ | .staticField _ _, _, _ => rfl
  | .var x, t, h => Store.read_congr (h x (by simp [uses])) t
  | .binary _ left right, t, h => by
      simp only [uses, List.mem_append] at h
      simp only [run]
      refine Run.bind_congr (run_congr left t fun x hx => h x (Or.inl hx)) fun a t => ?_
      exact Run.bind_congr (run_congr right t fun x hx => h x (Or.inr hx)) fun b t => rfl
  | .cast _ operand, t, h => by
      simp only [run]
      exact Run.bind_congr (run_congr operand t h) fun v t => rfl
  | .field base _, t, h => by
      simp only [run]
      exact Run.bind_congr (Store.read_congr (h base (by simp [uses])) t) fun v t => rfl
  | .element base index, t, h => by
      simp only [uses, List.mem_cons] at h
      simp only [run]
      refine Run.bind_congr (Store.read_congr (h base (Or.inl rfl)) t) fun v t => ?_
      exact Run.bind_congr (run_congr index t fun x hx => h x (Or.inr hx)) fun i t => rfl
  | .call _ _ receiver args, t, h => by
      simp only [uses, List.mem_append] at h
      simp only [run]
      refine Run.bind_congr (Store.readAny_congr (fun x hx => h x (Or.inl hx)) t) fun v t => ?_
      exact Run.bind_congr (runAll_congr args t fun x hx => h x (Or.inr hx)) fun vs t => rfl

theorem Expr.runAll_congr : ∀ (es : List Expr) (t : Trace), (∀ x ∈ usesOfAll es, σ x = σ' x) →
    runAll w σ es t = runAll w σ' es t
  | [], _, _ => rfl
  | e :: es, t, h => by
      simp only [usesOfAll, List.mem_append] at h
      simp only [runAll]
      refine Run.bind_congr (run_congr e t fun x hx => h x (Or.inl hx)) fun v t => ?_
      exact Run.bind_congr (runAll_congr es t fun x hx => h x (Or.inr hx)) fun vs t => rfl

end

theorem Place.cell_congr (p : Place) (t : Trace) (h : ∀ x ∈ p.uses, σ x = σ' x) :
    p.cell w σ t = p.cell w σ' t := by
  cases p with
  | var x => rfl
  | field base name =>
      have hbase := h base (by simp [uses, toExpr, Expr.uses])
      exact Run.bind_congr (Store.read_congr hbase t) fun v t => rfl
  | staticField cls name => rfl
  | element base index =>
      simp only [uses, toExpr, Expr.uses, List.mem_cons] at h
      refine Run.bind_congr (Store.read_congr (h base (Or.inl rfl)) t) fun v t => ?_
      exact Run.bind_congr (Expr.run_congr index t fun x hx => h x (Or.inr hx)) fun i t => rfl

/-- The same point is next, and the variables agree that agreed before or were just written. -/
def Config.AgreeAfter (σ σ' : Store) (x : Option Var) (c c' : Config) : Prop :=
  c.point = c'.point ∧ ∀ y, σ y = σ' y ∨ x = some y → c.store y = c'.store y

theorem Config.agreeAfter_same (p : Point) (x : Option Var) (hx : x = none) :
    AgreeAfter σ σ' x ⟨p, σ⟩ ⟨p, σ'⟩ :=
  ⟨rfl, fun y hy => hy.resolve_right (by simp [hx])⟩

theorem Config.agreeAfter_put (p : Point) (x : Var) (v : Word) :
    AgreeAfter σ σ' (some x) ⟨p, σ.put x v⟩ ⟨p, σ'.put x v⟩ := by
  refine ⟨rfl, ?_⟩
  intro y hy
  by_cases hyx : y = x
  · simp [Store.put, hyx]
  · simpa [Store.put, hyx] using hy.resolve_right (fun hq => hyx (Option.some.inj hq).symm)

theorem Config.matched_choose (next : Option Point) (t : Trace) :
    Run.Matched (AgreeAfter σ σ' none) (choose σ next t) (choose σ' next t) := by
  cases next with
  | none => exact .blocked
  | some p => exact .done (agreeAfter_same p none rfl)

/-- **A statement does the same where the variables that it reads have the same values.** -/
theorem Stmt.matched_run {b' : Body} (hb : b'.stmts.length = b.stmts.length) (s : Stmt) (t : Trace)
    (h : ∀ x ∈ s.uses, σ x = σ' x) :
    Run.Matched (Config.AgreeAfter σ σ' s.defined) (s.run w b i σ t) (s.run w b' i σ' t) := by
  have hf : b'.following i = b.following i := by unfold Body.following; rw [hb]
  have heq : ∀ {α : Type} (r : Run α), Run.Matched Eq r r := fun r => .of_eq (fun _ => rfl) r
  cases s with
  | assign place value =>
      simp only [uses, List.mem_append] at h
      have hvalue := fun t => Expr.run_congr (w := w) value t fun x hx => h x (Or.inr hx)
      cases place with
      | var x =>
          simp only [Stmt.run, hf, hvalue]
          refine (heq _).bind ?_
          rintro v _ t _ rfl
          exact .done (Config.agreeAfter_put _ x v)
      | _ =>
          simp only [Stmt.run, hf, hvalue]
          rw [Place.cell_congr _ t fun x hx => h x (Or.inl hx)]
          refine (heq _).bind ?_
          rintro cell _ t _ rfl
          refine (heq _).bind ?_
          rintro v _ t _ rfl
          exact .done (Config.agreeAfter_same _ _ rfl)
  | invoke result call =>
      have hcall := Expr.run_congr (w := w) call.toExpr t h
      cases result with
      | none =>
          simp only [Stmt.run, hf, hcall]
          refine (heq _).bind ?_
          rintro v _ t _ rfl
          exact .done (Config.agreeAfter_same _ _ rfl)
      | some x =>
          simp only [Stmt.run, hf, hcall]
          refine (heq _).bind ?_
          rintro v _ t _ rfl
          exact .done (Config.agreeAfter_put _ x v)
  | branch cond target =>
      simp only [Stmt.run, hf, Expr.run_congr (w := w) cond t h]
      refine (heq _).bind ?_
      rintro v _ t _ rfl
      exact Config.matched_choose _ t
  | goto target =>
      cases target with
      | none => exact .blocked
      | some k => exact .done (Config.agreeAfter_same _ _ rfl)
  | switch x cases default =>
      simp only [Stmt.run, Store.read_congr (h x (by simp [uses]))]
      refine (heq _).bind ?_
      rintro v _ t _ rfl
      exact Config.matched_choose _ t
  | ret value =>
      cases value with
      | none => exact .done (Config.agreeAfter_same _ _ rfl)
      | some e =>
          simp only [Stmt.run, Expr.run_congr (w := w) e t h]
          refine (heq _).bind ?_
          rintro v _ t _ rfl
          exact .done (Config.agreeAfter_same _ _ rfl)
  | nop =>
      simp only [Stmt.run, hf]
      exact .done (Config.agreeAfter_same _ _ rfl)

end

end TacFlow
