import Mathlib.Data.List.Perm.Subperm
import TacFlow.Calls.HierarchyAnalysis
import TacFlow.Proofs.Code.Equality
import TacFlow.Proofs.Program.Inheritance

/-!
# What a call can run

An object of some class runs the first concrete method on the superclass chain of that class.
`Dispatches` says so without a limit on the chain, and `Resolves` says in the same way how the
targets of a call are found. The functions of the analysis have limits, because they have to be
total; in a well-formed hierarchy no limit is ever met. A superclass chain does not come back to a
class that it has passed, so it ends within as many steps as there are classes.

The analysis walks down from a class to its direct subtypes, with a test of the kind of each, while
subtyping is said upwards, class by class. In a well-formed hierarchy both are the same relation.
-/

namespace TacFlow

open Relation (ReflTransGen TransGen)

namespace Hierarchy

variable {h : Hierarchy} {s : Subsignature} {a b c : ClassId} {m : Method} {r r' : Option Method}

/-- The first concrete method of a subsignature on the superclass chain of a class, or none if the
chain ends without one. -/
inductive Dispatches (h : Hierarchy) (s : Subsignature) : ClassId → Option Method → Prop where
  | found {c : ClassId} {m : Method} :
      h.method? ⟨c, s⟩ = some m → m.isAbstract = false → Dispatches h s c (some m)
  | missing {c : ClassId} : (∀ m, h.method? ⟨c, s⟩ = some m → m.isAbstract = true) →
      h.super? c = none → Dispatches h s c none
  | inherited {c d : ClassId} {r : Option Method} :
      (∀ m, h.method? ⟨c, s⟩ = some m → m.isAbstract = true) →
      h.super? c = some d → Dispatches h s d r → Dispatches h s c r

/-- What a call can run. A static call runs the method that it names, a special call what one
dispatch finds. The other calls search the class that they name and its subtypes, and run what a
dispatch finds on any of them. -/
inductive Resolves (h : Hierarchy) (target : MethodId) : CallKind → List MethodId → Prop where
  | static : Resolves h target .static ((h.method? target).map (·.id)).toList
  | special {r : Option Method} : Dispatches h target.subsig target.owner r →
      Resolves h target .special (r.map (·.id)).toList
  | search {kind : CallKind} {classes : List ClassId} {rs : List (Option Method)} :
      kind = .virtual ∨ kind = .interface →
      Search.Finds h.subtypes [target.owner] [] classes →
      List.Forall₂ (Dispatches h target.subsig) classes rs →
      Resolves h target kind (rs.filterMap fun r => r.map (·.id)).eraseDups

/-! ## Dispatch -/

/-- A dispatch finds one thing at most. -/
theorem Dispatches.unique (hr : Dispatches h s c r) (hr' : Dispatches h s c r') : r = r' := by
  induction hr with
  | found hm hc =>
      cases hr' with
      | found hm' _ => rw [← hm, hm']
      | missing hnone _ => exact absurd (hnone _ hm) (by simp [hc])
      | inherited hnone _ _ => exact absurd (hnone _ hm) (by simp [hc])
  | missing hnone hs =>
      cases hr' with
      | found hm' hc' => exact absurd (hnone _ hm') (by simp [hc'])
      | missing _ _ => rfl
      | inherited _ hs' _ => rw [hs] at hs'; exact absurd hs' (by simp)
  | inherited hnone hs _ ih =>
      cases hr' with
      | found hm' hc' => exact absurd (hnone _ hm') (by simp [hc'])
      | missing _ hs' => rw [hs] at hs'; exact absurd hs' (by simp)
      | inherited _ hs' hrest =>
          rw [hs] at hs'
          cases hs'
          exact ih hrest

theorem hasParent_of_super? (hs : h.super? a = some b) : h.HasParent a b := by
  obtain ⟨c, hc, hsuper⟩ := Option.bind_eq_some_iff.mp hs
  simp [HasParent, parents, hc, ClassDecl.parents, hsuper]

/-- One step of a dispatch, whatever it is that the rest of the chain yields. -/
theorem dispatches_cons
    (hrest : ∀ d, h.super? c = some d → Dispatches h s d (h.dispatchWithin s n d)) :
    Dispatches h s c (h.dispatchWithin s (n + 1) c) := by
  rw [dispatchWithin]
  cases hconcrete : (h.method? ⟨c, s⟩).filter (!·.isAbstract) with
  | some m =>
      obtain ⟨hm, hc⟩ := Option.filter_eq_some_iff.mp hconcrete
      exact .found hm (by simpa using hc)
  | none =>
      have hnone : ∀ m, h.method? ⟨c, s⟩ = some m → m.isAbstract = true := by
        intro m hm
        rw [hm] at hconcrete
        simpa using hconcrete
      cases hs : h.super? c with
      | none => exact .missing hnone hs
      | some d => exact .inherited hnone hs (hrest d hs)

/-- Nothing is found on a class that is not declared. -/
theorem dispatches_of_notMem (hc : c ∉ h.ids) : Dispatches h s c none := by
  have hclass : h.class? c = none := by
    cases hd : h.class? c with
    | none => rfl
    | some d =>
        obtain ⟨hmem, hid⟩ := mem_of_class? hd
        exact absurd (mem_ids.mpr ⟨d, hmem, hid⟩) hc
  refine .missing ?_ ?_
  · intro m hm
    rw [method?, hclass] at hm
    exact absurd hm (by simp)
  · rw [super?, hclass]
    rfl

/-- **A dispatch comes to the end of the chain.** The classes that the chain has passed are below
the one that it has come to, so they are different from it, and it takes no more steps than there
are classes that it has not passed. -/
theorem dispatches_dispatchWithin (hw : h.WellFormed) {fuel : Nat} {passed : List ClassId}
    (hnodup : passed.Nodup) (hdeclared : ∀ d ∈ passed, d ∈ h.ids)
    (hbelow : ∀ d ∈ passed, TransGen h.HasParent d c)
    (hfuel : h.declared.length ≤ fuel + passed.length) :
    Dispatches h s c (h.dispatchWithin s fuel c) := by
  have hnew : c ∉ passed := fun hc => hw.acyclic c (hbelow c hc)
  induction fuel generalizing c passed with
  | zero =>
      -- all classes have been passed, so the chain has left the hierarchy
      have hlength : h.ids.length ≤ passed.length := by
        rw [ids, List.length_map]
        omega
      have hperm := (List.subperm_of_subset hnodup hdeclared).perm_of_length_le hlength
      exact dispatches_of_notMem fun hc => hnew (hperm.mem_iff.mpr hc)
  | succ fuel ih =>
      refine dispatches_cons fun d hs => ?_
      have hparent := hasParent_of_super? hs
      have hc : c ∈ h.ids := mem_ids_of_parents (List.ne_nil_of_mem hparent)
      have hbelow' : ∀ e ∈ c :: passed, TransGen h.HasParent e d := by
        intro e he
        rcases List.mem_cons.mp he with rfl | he
        · exact .single hparent
        · exact (hbelow e he).tail hparent
      refine ih (List.nodup_cons.mpr ⟨hnew, hnodup⟩) ?_ hbelow' ?_
        fun hd => hw.acyclic d (hbelow' d hd)
      · intro e he
        rcases List.mem_cons.mp he with rfl | he
        · exact hc
        · exact hdeclared e he
      · rw [List.length_cons]
        omega

/-- **The analysis dispatches as an object does.** -/
theorem dispatches_dispatch (hw : h.WellFormed) : Dispatches h s c (h.dispatch c s) := by
  have hnone : ∀ d ∈ ([] : List ClassId), TransGen h.HasParent d c := by simp
  exact dispatches_dispatchWithin hw List.nodup_nil (by simp) hnone (Nat.le_refl _)

theorem dispatch_eq_some (hw : h.WellFormed) :
    h.dispatch c s = some m ↔ Dispatches h s c (some m) := by
  constructor
  · intro hd
    exact hd ▸ dispatches_dispatch hw
  · exact fun hd => (dispatches_dispatch hw).unique hd

/-! ## Subtypes -/

theorem mem_classes {d : ClassDecl} (hl : h.Linked) : d ∈ h.classes ↔ d ∈ h.declared := by
  unfold classes
  rw [hl.members, List.mem_filterMap]
  constructor
  · rintro ⟨a, _, hd⟩
    exact (mem_of_class? hd).1
  · intro hd
    exact ⟨d.id, mem_ids.mpr ⟨d, hd, rfl⟩, (class?_eq_some hl.nodup).mpr ⟨hd, rfl⟩⟩

theorem mem_mentions {d : ClassDecl} : b ∈ mentions d a ↔ a ∈ d.interfaces ∧ d.id = b := by
  unfold mentions
  rw [List.mem_map]
  constructor
  · rintro ⟨c, hc, hid⟩
    obtain ⟨hc, hca⟩ := List.mem_filter.mp hc
    exact ⟨beq_iff_eq.mp hca ▸ hc, hid⟩
  · rintro ⟨ha, hid⟩
    exact ⟨a, List.mem_filter.mpr ⟨ha, by simp⟩, hid⟩

theorem mem_subinterfaces (hl : h.Linked) : b ∈ h.subinterfaces a ↔
    ∃ d ∈ h.declared, d.isInterface = true ∧ a ∈ d.interfaces ∧ d.id = b := by
  simp only [subinterfaces, List.mem_flatMap, List.mem_filter, mem_classes hl, mem_mentions,
    and_assoc]

theorem mem_implementors (hl : h.Linked) : b ∈ h.implementors a ↔
    ∃ d ∈ h.declared, d.isInterface = false ∧ a ∈ d.interfaces ∧ d.id = b := by
  simp only [implementors, List.mem_flatMap, List.mem_filter, mem_classes hl, mem_mentions,
    and_assoc, Bool.not_eq_true']

theorem super?_eq_some (hn : h.ids.Nodup) :
    h.super? b = some a ↔ ∃ d ∈ h.declared, d.id = b ∧ d.super = some a := by
  unfold super?
  rw [Option.bind_eq_some_iff]
  simp only [class?_eq_some hn, and_assoc]

theorem mem_subclasses (hl : h.Linked) :
    b ∈ h.subclasses a ↔ ∃ d ∈ h.declared, d.id = b ∧ d.super = some a := by
  unfold subclasses
  rw [List.mem_filter, hl.members, beq_iff_eq, super?_eq_some hl.nodup]
  constructor
  · exact fun hb => hb.2
  · rintro ⟨d, hd, hid, hs⟩
    exact ⟨mem_ids.mpr ⟨d, hd, hid⟩, d, hd, hid, hs⟩

/-- **Down from a class lie the classes that it is a supertype of.** -/
theorem mem_subtypes (hl : h.Linked) : b ∈ h.subtypes a ↔ h.HasParent b a := by
  rw [HasParent, mem_parents hl.nodup, subtypes]
  constructor
  · intro hb
    split at hb
    · -- an interface is extended by interfaces and implemented by classes
      rcases List.mem_append.mp hb with hb | hb
      · obtain ⟨d, hd, _, ha, hid⟩ := (mem_subinterfaces hl).mp hb
        exact ⟨d, hd, hid, Or.inl ha⟩
      · obtain ⟨d, hd, _, ha, hid⟩ := (mem_implementors hl).mp hb
        exact ⟨d, hd, hid, Or.inl ha⟩
    · obtain ⟨d, hd, hid, hs⟩ := (mem_subclasses hl).mp hb
      exact ⟨d, hd, hid, Or.inr hs⟩
  · rintro ⟨d, hd, hid, ha | hs⟩
    · rw [isInterface_eq hl.nodup (hl.interfaces hd ha), if_pos rfl, List.mem_append]
      cases hi : d.isInterface with
      | true => exact Or.inl ((mem_subinterfaces hl).mpr ⟨d, hd, hi, ha, hid⟩)
      | false => exact Or.inr ((mem_implementors hl).mpr ⟨d, hd, hi, ha, hid⟩)
    · rw [isInterface_eq hl.nodup (hl.super hd hs).2, if_neg (by simp)]
      exact (mem_subclasses hl).mpr ⟨d, hd, hid, hs⟩

/-- A supertype is a class of the hierarchy. -/
theorem HasParent.mem_ids (hl : h.Linked) (hb : h.HasParent b a) : a ∈ h.ids := by
  obtain ⟨d, hd, _, ha | hs⟩ := (mem_parents hl.nodup).mp hb
  · obtain ⟨c, hc, hid, _⟩ := mem_kinds.mp (hl.interfaces hd ha)
    exact Hierarchy.mem_ids.mpr ⟨c, hc, hid⟩
  · obtain ⟨c, hc, hid, _⟩ := mem_kinds.mp (hl.super hd hs).2
    exact Hierarchy.mem_ids.mpr ⟨c, hc, hid⟩

theorem finds_withSubtypes (hl : h.Linked) :
    Search.Finds h.subtypes [a] [] (h.withSubtypes a) := by
  refine Search.finds_reach fun _ _ b _ hb => ?_
  obtain ⟨c, hc⟩ := List.exists_mem_of_ne_nil _ hb
  exact ((mem_subtypes hl).mp hc).mem_ids hl

/-- **The search finds a class and everything below it.** -/
theorem mem_withSubtypes (hl : h.Linked) :
    b ∈ h.withSubtypes a ↔ ReflTransGen h.HasParent b a := by
  have hswap : Search.Follows h.subtypes = Function.swap h.HasParent := by
    funext x y
    exact propext (mem_subtypes hl)
  rw [(finds_withSubtypes hl).mem_iff, hswap]
  simp [Relation.reflTransGen_swap]

/-! ## Targets -/

theorem nodup_eraseDups {α : Type} [DecidableEq α] (as : List α) : as.eraseDups.Nodup := by
  cases as with
  | nil => simp
  | cons a as =>
      rw [List.eraseDups_cons, List.nodup_cons]
      refine ⟨?_, nodup_eraseDups (as.filter fun b => !b == a)⟩
      simp [List.mem_eraseDups]
termination_by as.length
decreasing_by exact Nat.lt_succ_of_le (List.length_filter_le _ as)

/-- **The targets of a call are found without meeting a limit.** -/
theorem resolves_callTargets (hw : h.WellFormed) (kind : CallKind) (target : MethodId) :
    Resolves h target kind (h.callTargets kind target) := by
  have hdispatches : List.Forall₂ (Dispatches h target.subsig) (h.withSubtypes target.owner)
      ((h.withSubtypes target.owner).map fun c => h.dispatch c target.subsig) := by
    rw [List.forall₂_map_right_iff, List.forall₂_same]
    exact fun c _ => dispatches_dispatch hw
  have hsearch : ∀ kind, kind = .virtual ∨ kind = .interface →
      Resolves h target kind (((h.withSubtypes target.owner).filterMap fun c =>
        (h.dispatch c target.subsig).map (·.id)).eraseDups) := by
    intro kind hkind
    have hresolves := Resolves.search hkind (finds_withSubtypes hw.toLinked) hdispatches
    rwa [List.filterMap_map] at hresolves
  cases kind with
  | static => exact .static
  | special => exact .special (dispatches_dispatch hw)
  | virtual => exact hsearch .virtual (Or.inl rfl)
  | interface => exact hsearch .interface (Or.inr rfl)

theorem nodup_callTargets (kind : CallKind) (target : MethodId) :
    (h.callTargets kind target).Nodup := by
  cases kind with
  | static => cases hm : h.method? target <;> simp [callTargets, hm]
  | special => cases hd : h.dispatch target.owner target.subsig <;> simp [callTargets, hd]
  | virtual => exact nodup_eraseDups _
  | interface => exact nodup_eraseDups _

/-- **The targets of a call that dispatches on its receiver.** -/
theorem mem_callTargets (hw : h.WellFormed) {kind : CallKind}
    (hkind : kind = .virtual ∨ kind = .interface) {target id : MethodId} :
    id ∈ h.callTargets kind target ↔ ∃ a m, ReflTransGen h.HasParent a target.owner ∧
      Dispatches h target.subsig a (some m) ∧ m.id = id := by
  have hmem : id ∈ h.callTargets kind target ↔ id ∈ ((h.withSubtypes target.owner).filterMap fun c =>
      (h.dispatch c target.subsig).map (·.id)).eraseDups := by
    rcases hkind with rfl | rfl <;> rfl
  rw [hmem, List.mem_eraseDups, List.mem_filterMap]
  simp only [mem_withSubtypes hw.toLinked, Option.map_eq_some_iff, dispatch_eq_some hw]
  constructor
  · rintro ⟨a, ha, m, hm, hid⟩
    exact ⟨a, m, ha, hm, hid⟩
  · rintro ⟨a, m, ha, hm, hid⟩
    exact ⟨a, ha, m, hm, hid⟩

/-- What a call can run has the subsignature that the call names. -/
theorem subsig_of_mem_callTargets (hw : h.WellFormed) {kind : CallKind} {target t : MethodId}
    (ht : t ∈ h.callTargets kind target) : t.subsig = target.subsig := by
  have hfound : ∀ {id : MethodId} {m : Method}, h.method? id = some m → m.id.subsig = id.subsig := by
    intro id m hm
    obtain ⟨_, _, _, _, hsubsig⟩ := mem_of_method? hm
    exact hsubsig
  have hdispatched : ∀ {a : ClassId} {m : Method}, Dispatches h target.subsig a (some m) →
      m.id.subsig = target.subsig := by
    intro a m hd
    generalize hr : some m = r at hd
    induction hd with
    | found hm _ =>
        have hsubsig := hfound hm
        cases hr
        exact hsubsig
    | missing _ _ => exact absurd hr (by simp)
    | inherited _ _ _ ih => exact ih hr
  have hsearch : kind = .virtual ∨ kind = .interface → t.subsig = target.subsig := by
    intro hkind
    obtain ⟨a, m, _, hd, rfl⟩ := (mem_callTargets hw hkind).mp ht
    exact hdispatched hd
  cases kind with
  | static =>
      obtain ⟨m, hm, rfl⟩ := Option.map_eq_some_iff.mp (Option.mem_toList.mp ht)
      exact hfound hm
  | special =>
      obtain ⟨m, hm, rfl⟩ := Option.map_eq_some_iff.mp (Option.mem_toList.mp ht)
      exact hdispatched ((dispatch_eq_some hw).mp hm)
  | virtual => exact hsearch (Or.inl rfl)
  | interface => exact hsearch (Or.inr rfl)

/-- **Class hierarchy analysis is exact.** The search for the targets of a virtual or interface call
comes to its end, no target is listed twice, and the targets are what a dispatch finds on the class
that the call names or on any class below it. So whatever such class an object has when the program
runs, the method that it runs is among the targets. -/
theorem callTargets_exact [Nesting] {p : Program} (hp : p.Parsed) {kind : CallKind}
    (hkind : kind = .virtual ∨ kind = .interface) (target : MethodId) :
    Resolves p.hierarchy target kind (p.hierarchy.callTargets kind target) ∧
      (p.hierarchy.callTargets kind target).Nodup ∧
      (∀ id, id ∈ p.hierarchy.callTargets kind target ↔
        ∃ a m, ReflTransGen p.hierarchy.HasParent a target.owner ∧
          Dispatches p.hierarchy target.subsig a (some m) ∧ m.id = id) ∧
      ∀ a m, ReflTransGen p.hierarchy.HasParent a target.owner →
        p.hierarchy.dispatch a target.subsig = some m →
          m.id ∈ p.hierarchy.callTargets kind target := by
  have hw := hp.classes_wellFormed
  refine ⟨resolves_callTargets hw kind target, nodup_callTargets kind target,
    fun id => mem_callTargets hw hkind, ?_⟩
  intro a m ha hm
  exact (mem_callTargets hw hkind).mpr ⟨a, m, ha, (dispatch_eq_some hw).mp hm, rfl⟩

end Hierarchy

/-! ## An example -/

/-- A method `int f(int a)` without code. -/
def bareMethod (owner : String) : Method where
  id := ⟨⟨owner, 0⟩, ⟨.primitive .int, "f", [.primitive .int]⟩⟩
  isStatic := false
  isAbstract := true
  isPrivate := false
  paramNames := ["a"]
  body := none

/-- The same method with code that returns its argument. -/
def echoMethod (owner : String) : Method :=
  { bareMethod owner with
    isAbstract := false
    body := some {
      method := (bareMethod owner).id
      params := [intVar 0 "a"]
      vars := [intVar 0 "a"]
      stmts := [.ret (some (.var (intVar 0 "a")))]
      lines := [1] } }

/-- The class `B` is below the interface `I` in two ways: through the interface `J`, and through its
abstract superclass `A`, which declares the method once more. -/
def diamond : Program where
  hierarchy := {
    declared := [
      ⟨⟨"I", 0⟩, true, true, none, [], [bareMethod "I"]⟩,
      ⟨⟨"J", 0⟩, true, true, none, [⟨"I", 0⟩], []⟩,
      ⟨⟨"A", 0⟩, false, true, none, [⟨"I", 0⟩], [bareMethod "A"]⟩,
      ⟨⟨"B", 0⟩, false, false, some ⟨"A", 0⟩, [⟨"J", 0⟩], [echoMethod "B"]⟩,
      ⟨⟨"C", 0⟩, false, false, some ⟨"B", 0⟩, [], []⟩,
      ⟨⟨"D", 0⟩, false, false, none, [], [echoMethod "D"]⟩]
    members := [⟨"I", 0⟩, ⟨"J", 0⟩, ⟨"A", 0⟩, ⟨"B", 0⟩, ⟨"C", 0⟩, ⟨"D", 0⟩] }
  main := none

set_option maxRecDepth 100000 in
theorem parsed_diamond : diamond.Parsed :=
  Program.parsed_of_ofText
    ("interface I\x7bint f(int a);\x7dinterface J extends I\x7b\x7dabstract class A implements I" ++
      "\x7babstract int f(int a);\x7dclass B extends A implements J\x7bint f(int a)\x7breturn a;" ++
      "\x7d\x7dclass C extends B\x7b\x7dclass D\x7bint f(int a)\x7breturn a;\x7d\x7d")
    (toList_append_of_eq (toList_append_of_eq String.toList_ofList String.toList_ofList)
      String.toList_ofList) (by decide +kernel)

/-- An object of class `C` runs the method of `B`, and that is the only target. -/
theorem Hierarchy.callTargets_exact_diamond :
    diamond.hierarchy.callTargets .interface (bareMethod "I").id = [(echoMethod "B").id] ∧
      ∃ a m, ReflTransGen diamond.hierarchy.HasParent a ⟨"I", 0⟩ ∧
        Dispatches diamond.hierarchy (bareMethod "I").id.subsig a (some m) ∧
          m.id = (echoMethod "B").id := by
  have htargets :
      diamond.hierarchy.callTargets .interface (bareMethod "I").id = [(echoMethod "B").id] := by
    decide +kernel
  obtain ⟨_, _, hexact, _⟩ :=
    callTargets_exact parsed_diamond (Or.inr rfl) (bareMethod "I").id
  refine ⟨htargets, (hexact (echoMethod "B").id).mp ?_⟩
  rw [htargets]
  exact List.mem_singleton_self _

end TacFlow
