import Mathlib.Algebra.Order.BigOperators.Group.Finset
import TacFlow.Proofs.Flow.Ending

/-!
# Far facts that only rise

Where facts are ordered, a node has a *flow*: what its transfer makes of the near fact if nothing that
was known before gets in the way. As long as every far fact lies below the flow of what flows into its
node, a visit replaces it by that flow, so it rises. The flows of other nodes rise with it, and
nothing gets above its flow. That is the invariant `Ascending`, and `Ascends` lists what it takes.

It may be kept at some nodes only, if whatever flows into one of these comes from one of these. They
are called calm.

Facts that only rise have an end if there is only so much room above each of them.
-/

namespace TacFlow.Problem

variable {N F V : Type} [DecidableEq N] [PartialOrder V] {p : Problem N F} {view : F → V}
  {scope : List N} {calm : N → Prop} {flow : N → F → V} {facts facts' : Facts N F} {n m : N}

/-- The operations of a problem respect the order of facts at the calm nodes, and over a far fact below
the flow a transfer is the flow. -/
structure Ascends (p : Problem N F) (view : F → V) (scope : List N) (calm : N → Prop)
    (flow : N → F → V) : Prop where
  /-- The visited nodes are nodes of the problem. -/
  mem_nodes {n : N} : n ∈ scope → n ∈ p.nodes
  /-- What flows into a calm node comes from calm nodes. -/
  inflow_calm {n : N} {e : N × (F → F)} : calm n → e ∈ p.inflow n → calm e.1
  /-- Joining respects the order. -/
  join_mono {f f' g g' : F} :
    view f ≤ view f' → view g ≤ view g' → view (p.join f g) ≤ view (p.join f' g')
  /-- What happens to a fact on the way respects the order. -/
  along_mono {n : N} {e : N × (F → F)} {f f' : F} :
    e ∈ p.inflow n → view f ≤ view f' → view (e.2 f) ≤ view (e.2 f')
  /-- The flow of a calm node rises along a run. -/
  flow_mono {facts facts' : Facts N F} {n : N} : calm n → p.Reached scope facts →
    p.Reached scope facts' → view (p.merged facts n) ≤ view (p.merged facts' n) →
      flow n (p.merged facts n) ≤ flow n (p.merged facts' n)
  /-- Over a fact below the flow, a transfer is the flow. -/
  transfer_eq {n : N} {near far : F} :
    view far ≤ flow n near → view (p.transfer n near far) = flow n near
  /-- At the start every far fact lies below the flow. -/
  start_le {n : N} : n ∈ scope → calm n → view (p.start n) ≤ flow n (p.merged p.initial n)

/-- At calm nodes the far fact lies below the flow of what flows in. -/
def Ascending (p : Problem N F) (view : F → V) (scope : List N) (calm : N → Prop)
    (flow : N → F → V) (facts : Facts N F) : Prop :=
  ∀ n ∈ scope, calm n → view (p.farOf facts n) ≤ flow n (p.merged facts n)

section

variable (ha : p.Ascends view scope calm flow)

include ha

/-- What flows into a node rises with the far facts that flow in. -/
theorem Ascends.merged_mono (h : ∀ e ∈ p.inflow n,
      view (p.farOf facts e.1) ≤ view (p.farOf facts' e.1)) :
    view (p.merged facts n) ≤ view (p.merged facts' n) := by
  -- generalised over the facts that the others are joined to
  have key : ∀ (es : List (N × (F → F))) (f f' : F), (∀ e ∈ es, e ∈ p.inflow n) →
      view f ≤ view f' →
      view (es.foldl (fun acc e => p.join acc (e.2 (p.farOf facts e.1))) f) ≤
        view (es.foldl (fun acc e => p.join acc (e.2 (p.farOf facts' e.1))) f') := by
    intro es
    induction es with
    | nil => intro f f' _ hf; exact hf
    | cons e es ih =>
        intro f f' hes hf
        have he : e ∈ p.inflow n := hes e (by simp)
        refine ih _ _ (fun d hd => hes d (List.mem_cons_of_mem e hd)) ?_
        exact ha.join_mono hf (ha.along_mono he (h e he))
  exact key _ _ _ (fun e he => he) le_rfl

/-- A visit to a calm node makes its far fact the flow of what flows in. -/
theorem Ascends.farOf_visit_self (hr : p.Reached scope facts)
    (h : p.Ascending view scope calm flow facts) (hn : n ∈ scope) (hcalm : calm n) :
    view (p.farOf (p.visit facts n).1 n) = flow n (p.merged facts n) := by
  rw [Problem.farOf_visit_self (covers_reached hr) (ha.mem_nodes hn)]
  exact ha.transfer_eq (h n hn hcalm)

/-- At calm nodes the far facts rise. -/
theorem Ascends.farOf_le_farOf_visit (hr : p.Reached scope facts)
    (h : p.Ascending view scope calm flow facts) (hn : n ∈ scope) (hcalm : calm m) :
    view (p.farOf facts m) ≤ view (p.farOf (p.visit facts n).1 m) := by
  by_cases hmn : m = n
  · subst hmn
    rw [ha.farOf_visit_self hr h hn hcalm]
    exact h m hn hcalm
  · rw [farOf_visit_ne hmn]

/-- **Every visit keeps the calm nodes ascending.** -/
theorem Ascends.ascending_visit (hr : p.Reached scope facts)
    (h : p.Ascending view scope calm flow facts) (hn : n ∈ scope) :
    p.Ascending view scope calm flow (p.visit facts n).1 := by
  intro m hm hcalm
  -- what flows into a calm node comes from calm nodes, so it has risen
  have hmerged : view (p.merged facts m) ≤ view (p.merged (p.visit facts n).1 m) :=
    ha.merged_mono fun e he => ha.farOf_le_farOf_visit hr h hn (ha.inflow_calm hcalm he)
  have hflow := ha.flow_mono hcalm hr (.visit hr hn) hmerged
  by_cases hmn : m = n
  · subst hmn
    rw [ha.farOf_visit_self hr h hn hcalm]
    exact hflow
  · rw [farOf_visit_ne hmn]
    exact (h m hm hcalm).trans hflow

theorem Ascends.ascending_of_reached (hr : p.Reached scope facts) :
    p.Ascending view scope calm flow facts := by
  induction hr with
  | initial =>
      intro n hn hcalm
      rw [farOf_initial (ha.mem_nodes hn)]
      exact ha.start_le hn hcalm
  | visit hr hn ih => exact ha.ascending_visit hr ih hn

end

/-! ## Room above the facts -/

/-- **Facts that only rise, with room above them that shrinks as they do, have an end.** -/
theorem Ascends.descends (hp : p.Lawful view) (ha : p.Ascends view scope (fun _ => True) flow)
    (room : N → F → Nat) (hcongr : ∀ n f f', view f = view f' → room n f = room n f')
    (hlt : ∀ facts n f, p.Reached scope facts → n ∈ scope → view f < view (p.farOf facts n) →
      room n (p.farOf facts n) < room n f) :
    p.Descends scope fun facts => ∑ n ∈ scope.toFinset, room n (p.farOf facts n) where
  changed {facts n} hr hn hflag := by
    have hrises : view (p.farOf facts n) < view (p.farOf (p.visit facts n).1 n) := by
      refine lt_of_le_of_ne ?_ ?_
      · exact ha.farOf_le_farOf_visit hr (ha.ascending_of_reached hr) hn trivial
      · exact (hp.farOf_visit_of_changed (covers_reached hr) (ha.mem_nodes hn) hflag).symm
    have hroom := hlt _ n _ (.visit hr hn) hn hrises
    refine Finset.sum_lt_sum ?_ ⟨n, List.mem_toFinset.mpr hn, hroom⟩
    intro m _
    by_cases hmn : m = n
    · subst hmn; exact hroom.le
    · rw [farOf_visit_ne hmn]
  unchanged {facts n} hr hn hflag := by
    refine (Finset.sum_congr rfl fun m _ => hcongr m _ _ ?_).le
    exact hp.farOf_visit_of_unchanged (covers_reached hr) (ha.mem_nodes hn) hflag m

end TacFlow.Problem
