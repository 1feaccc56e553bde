import TacFlow.Proofs.DeadCode

/-!
# Pruned reachability

Which statements are dead, told without the walk that finds them. A branch whose condition is known
keeps one of its edges, a switch on a known value keeps the edges of that value, and what cannot be
reached from the entry along the edges that are kept is dead. So is an assignment that is reached but
whose value is neither needed nor has an effect.

Nothing is asked of the constants and of the live variables here; they may be any facts whatever.
-/

namespace TacFlow

open Relation (ReflTransGen)

/-! ## Right-hand sides -/

/-- The right-hand sides that may do more than give a value. -/
inductive Expr.Effectful : Expr → Prop where
  | alloc (t : Ty) : Effectful (.alloc t)
  | cast (t : Ty) (operand : Expr) : Effectful (.cast t operand)
  | field (base : Var) (name : String) : Effectful (.field base name)
  | staticField (cls name : String) : Effectful (.staticField cls name)
  | element (base : Var) (index : Expr) : Effectful (.element base index)
  | div (left right : Expr) : Effectful (.binary .div left right)
  | rem (left right : Expr) : Effectful (.binary .rem left right)

theorem Expr.isPure_iff {e : Expr} : e.isPure = true ↔ ¬ e.Effectful := by
  constructor
  · rintro hpure (_ | _ | _ | _ | _ | _ | _) <;>
      simp [isPure, BinOp.isDivision] at hpure
  · intro h
    cases e with
    | binary op left right =>
        cases op with
        | div => exact absurd (.div left right) h
        | rem => exact absurd (.rem left right) h
        | _ => rfl
    | alloc t => exact absurd (.alloc t) h
    | cast t operand => exact absurd (.cast t operand) h
    | field base name => exact absurd (.field base name) h
    | staticField cls name => exact absurd (.staticField cls name) h
    | element base index => exact absurd (.element base index) h
    | _ => rfl

namespace DeadCode

variable {b : Body} {constants : Point → Env} {live : Point → FinSet Var} {p q : Point} {i : Nat}
  {s : Stmt} {f : Env} {e : Edge}

/-- A statement assigns a variable that is not live afterwards, by a right-hand side that does no more
than give a value. -/
def AssignsInVain (live : FinSet Var) (s : Stmt) : Prop :=
  ∃ x value, s = .assign (.var x) value ∧ x ∉ live.elements ∧ ¬ value.Effectful

theorem isUseless_iff {live : FinSet Var} : isUseless live s = true ↔ AssignsInVain live s := by
  unfold isUseless AssignsInVain
  split
  · rename_i x value
    simp only [Bool.and_eq_true, Bool.not_eq_true', FinSet.contains, decide_eq_false_iff_not,
      Expr.isPure_iff]
    constructor
    · rintro ⟨hx, hv⟩; exact ⟨x, value, rfl, hx, hv⟩
    · rintro ⟨x, value, hs, hx, hv⟩; cases hs; exact ⟨hx, hv⟩
  · rename_i hother
    simp only [Bool.false_eq_true, false_iff]
    rintro ⟨x, value, rfl, _⟩
    exact hother x value rfl

/-! ## Edges -/

/-- Whether an edge out of a statement is kept by what is known before the statement. A known
condition keeps the edge of its truth value. A known value of a switch keeps the edges of the cases
with that value, or the default if no case has it. -/
def Keeps (s : Option Stmt) (f : Env) (e : Edge) : Prop :=
  match s with
  | some (.branch cond _) =>
    ∀ n, cond.eval f = .const n → e.kind = if n = 1 then .ifTrue else .ifFalse
  | some (.switch x cases _) =>
    ∀ n, f.get x = .const n →
      e.kind = .switchCase ∧ e.constant = some n ∨ e.kind = .switchDefault ∧ ∀ c ∈ cases, c.1 ≠ n
  | _ => True

/-- Control passes from a point to another one along an edge that is kept. -/
def Passes (b : Body) (constants : Point → Env) (p q : Point) : Prop :=
  ∃ e ∈ (Cfg.ofBody b).edges, e.source = p ∧ e.target = q ∧ Keeps (b.at? p) (constants p) e

theorem mem_succs_of_passes (h : Passes b constants p q) : q ∈ (Cfg.ofBody b).succs p := by
  obtain ⟨e, he, hp, hq, _⟩ := h
  exact Cfg.mem_succs.mpr ⟨e, he, hp, hq⟩

/-- Where nothing is known that decides, every edge is kept. -/
theorem passes_iff_of_keeps (hkeeps : ∀ e, Keeps (b.at? p) (constants p) e) :
    Passes b constants p q ↔ q ∈ (Cfg.ofBody b).succs p := by
  refine ⟨mem_succs_of_passes, fun h => ?_⟩
  obtain ⟨e, he, hp, hq⟩ := Cfg.mem_succs.mp h
  exact ⟨e, he, hp, hq, hkeeps e⟩

theorem passes_iff_outEdges :
    Passes b constants p q ↔
      ∃ e ∈ (Cfg.ofBody b).outEdges p, Keeps (b.at? p) (constants p) e ∧ e.target = q := by
  constructor
  · rintro ⟨e, he, hp, hq, hk⟩
    exact ⟨e, List.mem_filter.mpr ⟨he, by simpa using hp⟩, hk, hq⟩
  · rintro ⟨e, he, hk, hq⟩
    obtain ⟨he, hp⟩ := List.mem_filter.mp he
    exact ⟨e, he, by simpa using hp, hq, hk⟩

/-- A switch has an edge for each of its cases and one for its default. -/
theorem mem_outEdges_switch {x : Var} {cases : List (Int × Nat)} {default : Option Nat}
    (hs : b.stmts[i]? = some (.switch x cases default)) :
    e ∈ (Cfg.ofBody b).outEdges (.stmt i) ↔
      (∃ c ∈ cases, e = ⟨.stmt i, .stmt c.2, .switchCase, some c.1⟩) ∨
        ∃ k, default = some k ∧ e = ⟨.stmt i, .stmt k, .switchDefault, none⟩ := by
  rw [Cfg.mem_outEdges_stmt]
  simp only [hs, Option.some.injEq, exists_eq_left', Cfg.exitsOf, List.mem_append, List.mem_map,
    List.mem_singleton, eq_comm (a := some e), Option.map_eq_some_iff]
  constructor <;> rintro (⟨c, hc, he⟩ | ⟨k, hk, he⟩)
  · exact Or.inl ⟨c, hc, he.symm⟩
  · exact Or.inr ⟨k, hk, he.symm⟩
  · exact Or.inl ⟨c, hc, he.symm⟩
  · exact Or.inr ⟨k, hk, he.symm⟩

/-- A known condition leaves the edge of its truth value. -/
theorem mem_liveSuccs_branch {cond : Expr} {target : Option Nat} {n : Int}
    (hs : b.at? p = some (.branch cond target)) (hn : cond.eval (constants p) = .const n) :
    q ∈ liveSuccs (.ofBody b) constants p ↔ Passes b constants p q := by
  have hat : (Cfg.ofBody b).body.at? p = _ := hs
  rw [passes_iff_outEdges]
  simp only [liveSuccs, hat, hn, hs, Keeps, List.mem_map, List.mem_filter, decide_eq_true_eq,
    Value.const.injEq, forall_eq', and_assoc]

/-- A known value leaves the edges of its cases, or the default. -/
theorem mem_liveSuccs_switch {x : Var} {cases : List (Int × Nat)} {default : Option Nat} {n : Int}
    (hs : b.at? p = some (.switch x cases default)) (hn : (constants p).get x = .const n) :
    q ∈ liveSuccs (.ofBody b) constants p ↔ Passes b constants p q := by
  have hat : (Cfg.ofBody b).body.at? p = _ := hs
  obtain ⟨i, rfl, hi⟩ := Body.at?_eq_some.mp hs
  rw [passes_iff_outEdges]
  simp only [liveSuccs, hat, hn, hs, Keeps, Value.const.injEq, forall_eq']
  simp only [mem_outEdges_switch hi]
  cases hits : cases.filter (·.1 = n) with
  | nil =>
      have hnone : ∀ c ∈ cases, c.1 ≠ n := by simpa using List.filter_eq_nil_iff.mp hits
      constructor
      · intro hq
        obtain ⟨k, hk, rfl⟩ := List.mem_map.mp hq
        exact ⟨_, Or.inr ⟨k, Option.mem_toList.mp hk, rfl⟩, Or.inr ⟨rfl, hnone⟩, rfl⟩
      · rintro ⟨e, ⟨c, hc, rfl⟩ | ⟨k, hk, rfl⟩, hkeeps, rfl⟩
        · rcases hkeeps with ⟨_, hcn⟩ | ⟨hkind, _⟩
          · exact absurd (Option.some.inj hcn) (hnone c hc)
          · exact absurd hkind (by simp)
        · exact List.mem_map_of_mem (Option.mem_toList.mpr hk)
  | cons hit rest =>
      have hmem : ∀ c, c ∈ hit :: rest ↔ c ∈ cases ∧ c.1 = n := by
        intro c
        rw [← hits, List.mem_filter, decide_eq_true_eq]
      constructor
      · intro hq
        obtain ⟨c, hc, rfl⟩ := List.mem_map.mp hq
        obtain ⟨hc, rfl⟩ := (hmem c).mp hc
        exact ⟨_, Or.inl ⟨c, hc, rfl⟩, Or.inl ⟨rfl, rfl⟩, rfl⟩
      · rintro ⟨e, ⟨c, hc, rfl⟩ | ⟨k, hk, rfl⟩, hkeeps, rfl⟩
        · rcases hkeeps with ⟨_, hcn⟩ | ⟨hkind, _⟩
          · exact List.mem_map_of_mem (f := fun c : Int × Nat => Point.stmt c.2)
              ((hmem c).mpr ⟨hc, Option.some.inj hcn⟩)
          · exact absurd hkind (by simp)
        · obtain ⟨hcase, hcn⟩ := (hmem hit).mp (by simp)
          rcases hkeeps with ⟨hkind, _⟩ | ⟨_, hnone⟩
          · exact absurd hkind (by simp)
          · exact absurd hcn (hnone hit hcase)

/-- Where nothing is known that decides, the walk goes on everywhere. -/
theorem mem_liveSuccs_of_unknown
    (hbranch : ∀ cond target n, b.at? p = some (.branch cond target) →
      cond.eval (constants p) ≠ .const n)
    (hswitch : ∀ x cases default n, b.at? p = some (.switch x cases default) →
      (constants p).get x ≠ .const n) :
    q ∈ liveSuccs (.ofBody b) constants p ↔ Passes b constants p q := by
  have hat : (Cfg.ofBody b).body.at? p = b.at? p := rfl
  rw [passes_iff_of_keeps, liveSuccs, hat]
  · split
    · rename_i cond target hs
      split
      · exact absurd ‹_› (hbranch _ _ _ hs)
      · exact Iff.rfl
    · rename_i x cases default hs
      split
      · exact absurd ‹_› (hswitch _ _ _ _ hs)
      · exact Iff.rfl
    · exact Iff.rfl
  · intro e
    unfold Keeps
    split
    · exact fun n hn => absurd hn (hbranch _ _ n ‹_›)
    · exact fun n hn => absurd hn (hswitch _ _ _ n ‹_›)
    · exact trivial

/-- **The walk goes on from a point to wherever control passes from there.** -/
theorem mem_liveSuccs_iff : q ∈ liveSuccs (.ofBody b) constants p ↔ Passes b constants p q := by
  by_cases hbranch : ∃ cond target n, b.at? p = some (.branch cond target) ∧
      cond.eval (constants p) = .const n
  · obtain ⟨cond, target, n, hs, hn⟩ := hbranch
    exact mem_liveSuccs_branch hs hn
  · by_cases hswitch : ∃ x cases default n, b.at? p = some (.switch x cases default) ∧
        (constants p).get x = .const n
    · obtain ⟨x, cases, default, n, hs, hn⟩ := hswitch
      exact mem_liveSuccs_switch hs hn
    · refine mem_liveSuccs_of_unknown ?_ ?_
      · exact fun cond target n hs hn => hbranch ⟨cond, target, n, hs, hn⟩
      · exact fun x cases default n hs hn => hswitch ⟨x, cases, default, n, hs, hn⟩

/-! ## The walk -/

/-- Control reaches a point from the entry along edges that are kept. -/
def Reaches (b : Body) (constants : Point → Env) (p : Point) : Prop :=
  ReflTransGen (Passes b constants) .entry p

theorem follows_liveSuccs :
    Search.Follows (liveSuccs (.ofBody b) constants) = Passes b constants := by
  funext p q
  exact propext mem_liveSuccs_iff

section

variable (hb : b.Linked)

include hb

/-- The walk comes to its end. -/
theorem finds_reached (constants : Point → Env) :
    Search.Finds (liveSuccs (.ofBody b) constants) [.entry] [] (reached (.ofBody b) constants) := by
  have hentry : Point.entry ∈ (Cfg.ofBody b).nodes := b.entry_mem_points
  exact Search.finds_reach
    (Search.bounds_of_closed (fun _ _ _ => mem_nodes_of_mem_liveSuccs hb) (by simpa))

theorem mem_reached_iff : p ∈ reached (.ofBody b) constants ↔ Reaches b constants p := by
  rw [(finds_reached hb constants).mem_iff, follows_liveSuccs]
  simp [Reaches]

/-- Along all edges control gets at least as far. -/
theorem mem_reachableFrom_of_reaches (h : Reaches b constants p) :
    p ∈ (Cfg.ofBody b).reachableFrom .entry := by
  have hscope : ∀ x ∈ (Cfg.ofBody b).nodes, ∀ y ∈ (Cfg.ofBody b).succs x,
      y ∈ (Cfg.ofBody b).nodes := fun _ _ _ hy => (Cfg.Linked.mem_succs hb hy).1
  have hentry : ∀ x ∈ [Point.entry], x ∈ (Cfg.ofBody b).nodes :=
    fun x hx => List.mem_singleton.mp hx ▸ b.entry_mem_points
  have hfinds := Search.finds_reach (Search.bounds_of_closed hscope hentry)
  have hwalk : ReflTransGen (Search.Follows (Cfg.ofBody b).succs) .entry p :=
    ReflTransGen.mono (fun _ _ => mem_succs_of_passes) _ _ h
  refine List.mem_filter.mpr ⟨?_, ?_⟩
  · rcases h.cases_tail with rfl | ⟨q, _, hq⟩
    · exact b.entry_mem_points
    · exact (Cfg.Linked.mem_succs hb (mem_succs_of_passes hq)).1
  · exact decide_eq_true (hfinds.mem_iff.mpr ⟨_, by simp, hwalk⟩)

end

/-! ## What is dead -/

/-- The reported positions rise. -/
theorem pairwise_detect (g : Cfg) (constants : Point → Env) (live : Point → FinSet Var) :
    (detect g constants live).Pairwise (· < ·) := by
  have hpositions : (g.body.stmts.zipIdx.map (·.2)).Pairwise (· < ·) := by
    rw [List.zipIdx_map_snd]
    exact List.pairwise_lt_range'
  exact hpositions.sublist (List.filter_sublist.map _)

/-- **The dead statements are those that control does not reach along the edges that are kept, and
those that it reaches and that assign in vain.** The walk that finds them comes to its end, they are
listed by position, and a statement that no path at all leads to is among them. -/
theorem mem_detect_iff_not_reaches [Nesting] (hparsed : b.Parsed) (constants : Point → Env)
    (live : Point → FinSet Var) :
    Search.Finds (liveSuccs (.ofBody b) constants) [.entry] [] (reached (.ofBody b) constants) ∧
      (detect (.ofBody b) constants live).Pairwise (· < ·) ∧
      (∀ i, i ∈ detect (.ofBody b) constants live ↔ ∃ s, b.stmts[i]? = some s ∧
        (¬ Reaches b constants (.stmt i) ∨
          Reaches b constants (.stmt i) ∧ AssignsInVain (live (.stmt i)) s)) ∧
      ∀ i s, b.stmts[i]? = some s → .stmt i ∉ (Cfg.ofBody b).reachableFrom .entry →
        i ∈ detect (.ofBody b) constants live := by
  have hb := hparsed.wellFormed.linked
  have hdetect : ∀ i, i ∈ detect (.ofBody b) constants live ↔ ∃ s, b.stmts[i]? = some s ∧
      (¬ Reaches b constants (.stmt i) ∨
        Reaches b constants (.stmt i) ∧ AssignsInVain (live (.stmt i)) s) := by
    intro i
    rw [mem_detect]
    refine exists_congr fun s => and_congr_right fun _ => ?_
    rw [mem_reached_iff hb, isUseless_iff]
    by_cases hreaches : Reaches b constants (.stmt i) <;> simp [hreaches]
  refine ⟨finds_reached hb constants, pairwise_detect _ _ _, hdetect, ?_⟩
  intro i s hs hi
  exact (hdetect i).mpr
    ⟨s, hs, Or.inl fun hreaches => hi (mem_reachableFrom_of_reaches hb hreaches)⟩

/-- If `y` is known to be 2 and is the one variable that is live, the branch at 2 skips the assignment
at 3, and the assignments at 0, 4 and 5 are in vain. The one at 1 stays, since `y` is live. -/
theorem mem_detect_iff_not_reaches_countdown :
    let constants : Point → Env := fun _ => Env.empty.set (intVar 2 "y") (.const 2)
    let live : Point → FinSet Var := fun _ => FinSet.empty.insert (intVar 2 "y")
    detect (.ofBody countdown) constants live = [0, 3, 4, 5] ∧
      ¬ Reaches countdown constants (.stmt 3) ∧ Reaches countdown constants (.stmt 1) := by
  intro constants live
  have hdetect : detect (.ofBody countdown) constants live = [0, 3, 4, 5] := by decide +kernel
  have hmem := (mem_detect_iff_not_reaches parsed_countdown constants live).2.2.1
  refine ⟨hdetect, ?_, ?_⟩
  · obtain ⟨s, hs, h⟩ := (hmem 3).mp (by simp [hdetect])
    refine h.resolve_right ?_
    rintro ⟨_, x, value, rfl, hx, _⟩
    cases hs
    exact hx (by decide)
  · by_contra hreaches
    have h := (hmem 1).mpr ⟨_, rfl, Or.inl hreaches⟩
    rw [hdetect] at h
    exact absurd h (by decide)

end DeadCode

end TacFlow
