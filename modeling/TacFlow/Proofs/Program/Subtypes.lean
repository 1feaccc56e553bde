import TacFlow.Program.Subtypes
import TacFlow.Proofs.Index
import TacFlow.Proofs.Program.Inheritance

/-!
# Direct subtypes that are kept

The direct subtypes that are filed when classes become members are those that the hierarchy names, as long
as no member gets other supertypes. In a program that was read from a text none does: all classes are linked
before the first of them becomes a member, and what comes after that are methods and their code.
-/

namespace TacFlow

namespace Hierarchy

variable {h h' : Hierarchy} {a c : ClassId} {d : ClassDecl}

/-- The members stay, and each of them stays as it is but for its methods. -/
structure KeepsMembers (h h' : Hierarchy) : Prop where
  members : h'.members = h.members
  outline {a : ClassId} : a ∈ h.members →
    (h'.class? a).map ClassDecl.outline = (h.class? a).map ClassDecl.outline

/-! ## What direct subtypes depend on -/

theorem super?_eq_outline : h.super? a = ((h.class? a).map ClassDecl.outline).bind (·.super) := by
  rw [Option.bind_map]
  rfl

theorem subinterfaces_eq_outline : h.subinterfaces c =
    ((h.classes.map ClassDecl.outline).filter (·.isInterface)).flatMap (mentions · c) := by
  rw [List.filter_map, List.flatMap_map]
  rfl

theorem implementors_eq_outline : h.implementors c =
    ((h.classes.map ClassDecl.outline).filter (!·.isInterface)).flatMap (mentions · c) := by
  rw [List.filter_map, List.flatMap_map]
  rfl

namespace KeepsMembers

theorem subclasses (hk : KeepsMembers h h') : h'.subclasses c = h.subclasses c := by
  unfold Hierarchy.subclasses
  rw [hk.members]
  refine List.filter_congr fun a ha => ?_
  rw [super?_eq_outline, super?_eq_outline, hk.outline ha]

theorem classes (hk : KeepsMembers h h') :
    h'.classes.map ClassDecl.outline = h.classes.map ClassDecl.outline := by
  unfold Hierarchy.classes
  rw [hk.members, List.map_filterMap, List.map_filterMap]
  exact List.filterMap_congr fun a ha => hk.outline ha

theorem subinterfaces (hk : KeepsMembers h h') : h'.subinterfaces c = h.subinterfaces c := by
  rw [subinterfaces_eq_outline, subinterfaces_eq_outline, hk.classes]

theorem implementors (hk : KeepsMembers h h') : h'.implementors c = h.implementors c := by
  rw [implementors_eq_outline, implementors_eq_outline, hk.classes]

end KeepsMembers

/-! ## A new member -/

/-- A hierarchy with one more member. -/
def withMember (h : Hierarchy) (c : ClassId) : Hierarchy :=
  { h with members := h.members ++ [c] }

theorem subclasses_withMember : (h.withMember c).subclasses a =
    h.subclasses a ++ (((h.class? c).bind (·.super)).toList.filter (· == a)).map fun _ => c := by
  have hnew : [c].filter (fun d => h.super? d == some a) =
      ((h.super? c).toList.filter (· == a)).map fun _ => c := by
    cases hs : h.super? c with
    | none => simp [hs]
    | some s => by_cases ha : s = a <;> simp [hs, ha]
  exact (List.filter_append _ _).trans (congrArg _ hnew)

theorem classes_withMember : (h.withMember c).classes = h.classes ++ (h.class? c).toList := by
  have hnew : [c].filterMap h.class? = (h.class? c).toList := by
    cases hc : h.class? c <;> simp [hc]
  exact List.filterMap_append.trans (congrArg _ hnew)

theorem subinterfaces_withMember : (h.withMember c).subinterfaces a =
    h.subinterfaces a ++ ((h.class? c).toList.filter (·.isInterface)).flatMap (mentions · a) := by
  simp [subinterfaces, classes_withMember]

theorem implementors_withMember : (h.withMember c).implementors a =
    h.implementors a ++ ((h.class? c).toList.filter (!·.isInterface)).flatMap (mentions · a) := by
  simp [implementors, classes_withMember]

/-! ## What is filed -/

namespace Filed

variable {k k' : Filed}

/-- What is filed under a class are its direct subtypes. -/
structure Agrees (k : Filed) : Prop where
  subclasses (c : ClassId) : k.subclasses c = k.hierarchy.subclasses c
  subinterfaces (c : ClassId) : k.subinterfaces c = k.hierarchy.subinterfaces c
  implementors (c : ClassId) : k.implementors c = k.hierarchy.implementors c

theorem agrees_start (declared : List ClassDecl) : (start declared).Agrees :=
  ⟨fun _ => rfl, fun _ => rfl, fun _ => rfl⟩

/-- A change of the declarations keeps the agreement if the members keep their supertypes. -/
theorem Agrees.change (hk : k.Agrees) (hh : KeepsMembers k.hierarchy h) :
    ({ k with hierarchy := h } : Filed).Agrees where
  subclasses c := (hk.subclasses c).trans hh.subclasses.symm
  subinterfaces c := (hk.subinterfaces c).trans hh.subinterfaces.symm
  implementors c := (hk.implementors c).trans hh.implementors.symm

/-- A class that becomes a member is declared as before. -/
theorem add_eq_ok (hstep : k.add c = .ok k') :
    k' = { (k.hierarchy.class? c).elim k k.fileSupertypes with hierarchy := k.hierarchy.withMember c } := by
  unfold add Hierarchy.add at hstep
  split at hstep
  · cases hstep
  · cases hstep
    rfl

theorem exists_add (hstep : k.hierarchy.add c = .ok h) : ∃ k', k.add c = .ok k' ∧ k'.hierarchy = h := by
  rw [add, hstep]
  exact ⟨_, rfl, rfl⟩

/-- **A class that becomes a member joins the direct subtypes of its supertypes.** -/
theorem Agrees.add (hk : k.Agrees) (hstep : k.add c = .ok k') : k'.Agrees := by
  obtain rfl := add_eq_ok hstep
  cases hc : k.hierarchy.class? c with
  | none =>
      refine ⟨fun a => ?_, fun a => ?_, fun a => ?_⟩
      · simpa [subclasses_withMember, hc] using hk.subclasses a
      · simpa [subinterfaces_withMember, hc] using hk.subinterfaces a
      · simpa [implementors_withMember, hc] using hk.implementors a
  | some d =>
      obtain ⟨_, rfl⟩ := mem_of_class? hc
      refine ⟨fun a => ?_, fun a => ?_, fun a => ?_⟩
      · simp [fileSupertypes, Index.fileUnder_apply, hk.subclasses, subclasses_withMember, hc]
      · cases hi : d.isInterface <;>
          simp [fileSupertypes, Index.fileUnder_apply, hk.subinterfaces, subinterfaces_withMember, hc, hi,
            mentions]
      · cases hi : d.isInterface <;>
          simp [fileSupertypes, Index.fileUnder_apply, hk.implementors, implementors_withMember, hc, hi,
            mentions]

/-- A hierarchy with the direct subtypes that were filed while its classes became members, each of them after
its supertypes were linked. -/
inductive Maintained : Filed → Prop
  | start (declared : List ClassDecl) : Maintained (start declared)
  /-- What is declared changes, but no member gets other supertypes. -/
  | change {k : Filed} {h : Hierarchy} : Maintained k → KeepsMembers k.hierarchy h →
      Maintained { k with hierarchy := h }
  | add {k k' : Filed} {c : ClassId} : Maintained k → k.add c = .ok k' → Maintained k'

/-- **What is filed along the way are the direct subtypes of each class.** -/
theorem Maintained.agrees (hk : Maintained k) : k.Agrees := by
  induction hk with
  | start declared => exact agrees_start declared
  | change _ hh ih => exact ih.change hh
  | add _ hstep ih => exact ih.add hstep

end Filed

end Hierarchy

/-! ## Programs -/

namespace Resolve

open Hierarchy (Filed KeepsMembers)

variable {o : Origin} {h h' : Hierarchy} {cls : Source.Class} {classes : List Source.Class}

theorem Fills.keepsMembers (hf : Fills h h') : KeepsMembers h h' where
  members := hf.2.1
  outline {a} _ := by
    rw [← Hierarchy.find?_outline, ← Hierarchy.find?_outline, hf.1]

theorem maintained_addMember (hk : ∃ k, Filed.Maintained k ∧ k.hierarchy = h)
    (hstep : addMember o h cls = .ok h') : ∃ k, Filed.Maintained k ∧ k.hierarchy = h' := by
  obtain ⟨k, hk, rfl⟩ := hk
  unfold addMember at hstep
  split at hstep
  · exact absurd hstep (by simp [Origin.reject])
  · cases hadd : k.hierarchy.add (classId cls.name) with
    | error fault => rw [hadd] at hstep; exact absurd hstep (by simp [Origin.attempt, Origin.reject])
    | ok h =>
        rw [hadd] at hstep
        cases hstep
        obtain ⟨k', hk', rfl⟩ := Filed.exists_add hadd
        exact ⟨k', hk.add hk', rfl⟩

/-- All classes are linked when they become members, and only get methods afterwards. -/
theorem exists_maintained [Nesting] (hh : hierarchy o classes = .ok h) :
    ∃ k, Filed.Maintained k ∧ k.hierarchy = h := by
  obtain ⟨h₂, h₃, h₄, hlinking, hids, hnodup, hadded, hmethods, hbodies⟩ := exists_linking hh
  obtain ⟨hlinked₃, hdeclared₃⟩ := linked_addMembers hnodup hids hlinking hadded
  have hstart : (Filed.start h₂.declared).hierarchy = h₂ := by
    obtain ⟨declared, members⟩ := h₂
    obtain rfl : members = [] := hlinking.members
    rfl
  obtain ⟨k, hk, rfl⟩ : ∃ k, Filed.Maintained k ∧ k.hierarchy = h₃ :=
    foldlM_invariant (P := fun h => ∃ k, Filed.Maintained k ∧ k.hierarchy = h)
      (fun _ _ _ _ hk hs => maintained_addMember hk hs) ⟨_, .start h₂.declared, hstart⟩ hadded
  have hbare : ∀ c ∈ k.hierarchy.declared, c.methods = [] := by
    intro c hc
    rw [hdeclared₃] at hc
    exact (congrArg ClassDecl.methods (hlinking.bare hc)).symm
  have hfills := fills_of_stages hlinked₃.nodup hbare hmethods hbodies
  exact ⟨_, hk.change hfills.keepsMembers, rfl⟩

end Resolve

/-- **The direct subtypes in a program that was read from a text are those that were filed** while its
classes became members. -/
theorem Program.Parsed.exists_filed [Nesting] {p : Program} (hp : p.Parsed) :
    ∃ k, Hierarchy.Filed.Maintained k ∧ k.hierarchy = p.hierarchy ∧
      ∀ c, k.subclasses c = p.hierarchy.subclasses c ∧ k.subinterfaces c = p.hierarchy.subinterfaces c ∧
        k.implementors c = p.hierarchy.implementors c := by
  obtain ⟨o, classes, hres⟩ := hp.exists_classes
  obtain ⟨k, hk, hh⟩ := Resolve.exists_maintained hres
  have hagrees := hk.agrees
  rw [← hh]
  exact ⟨k, hk, rfl, fun c => ⟨hagrees.subclasses c, hagrees.subinterfaces c, hagrees.implementors c⟩⟩

end TacFlow
