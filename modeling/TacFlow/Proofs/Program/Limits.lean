import TacFlow.Program.Resolve
import TacFlow.Proofs.Limits

/-!
# Reading programs under limits

A signature, a method of a hierarchy and a program text are read just as under higher limits, or they are
refused because a type is nested too deep.
-/

namespace TacFlow

/-! ## What is within limits -/

theorem Ty.kept_isReadable (t : Ty) : Kept fun _ => t.isReadable :=
  fun _ _ hN h => decide_eq_true (Nat.le_trans (of_decide_eq_true h) hN.readable)

theorem Ty.kept_isSearchable (t : Ty) : Kept fun _ => t.isSearchable :=
  fun _ _ hN h => decide_eq_true (Nat.le_trans (of_decide_eq_true h) hN.searchable)

theorem Subsignature.kept_isSearchable (s : Subsignature) : Kept fun _ => s.isSearchable :=
  kept_all Ty.kept_isSearchable s.types

theorem Subsignature.kept_isComparable (s : Subsignature) : Kept fun _ => s.isComparable :=
  fun _ _ hN h => decide_eq_true (Nat.le_trans (of_decide_eq_true h) hN.comparable)

theorem Subsignature.kept_isShallow (s : Subsignature) : Kept fun _ => s.isShallow :=
  s.kept_isSearchable.and s.kept_isComparable

theorem Subsignature.kept_isWritable (s : Subsignature) : Kept fun _ => s.isWritable :=
  fun _ _ hN h => decide_eq_true (Nat.lt_of_lt_of_le (of_decide_eq_true h) hN.writable)

theorem MethodId.kept_isWritable (m : MethodId) : Kept fun _ => m.isWritable :=
  fun _ _ hN h => decide_eq_true (Nat.le_trans (of_decide_eq_true h) hN.writable)

theorem ClassDecl.kept_canLookUp (c : ClassDecl) (s : Subsignature) : Kept fun _ => c.canLookUp s :=
  s.kept_isSearchable.and (s.kept_isComparable.or (kept_const _))

/-! ## Signatures -/

theorem Subsignature.limited_write? (s : Subsignature) : Limited (· = none) fun _ => s.write? :=
  s.kept_isWritable.guard (limited_const _) fun _ => rfl

theorem MethodId.limited_write? (m : MethodId) : Limited (· = none) fun _ => m.write? :=
  m.kept_isWritable.guard (limited_const _) fun _ => rfl

/-- The errors that refuse what is nested too deep. -/
def SignatureError.IsTooDeep (e : SignatureError) : Prop :=
  e = .tooDeep

theorem Subsignature.limited_read (cs : List Char) :
    Limited (Refused SignatureError.IsTooDeep) fun _ => Subsignature.read cs := by
  unfold read
  split
  · rename_i s _
    exact (kept_all Ty.kept_isReadable s.types).guard (limited_const _) fun _ => rfl
  · exact limited_const _

theorem MethodId.limited_read (cs : List Char) :
    Limited (Refused SignatureError.IsTooDeep) fun _ => MethodId.read cs := by
  unfold read
  split
  · exact (Subsignature.limited_read _).bind fun _ => limited_const _
  · exact limited_const _

/-! ## Hierarchies -/

/-- The faults that refuse what is nested too deep. -/
def ProgramFault.IsTooDeep : ProgramFault → Prop
  | .tooDeep => True
  | .malformed e => e.IsTooDeep
  | _ => False

theorem ClassDecl.limited_declare (c : ClassDecl) (m : Method) :
    Limited (Refused ProgramFault.IsTooDeep) fun _ => c.declare m :=
  (c.kept_canLookUp m.id.subsig).guard_not (limited_const _) fun _ => trivial

namespace Hierarchy

variable (h : Hierarchy)

theorem limited_declareMethod (m : Method) :
    Limited (Refused ProgramFault.IsTooDeep) fun _ => h.declareMethod m := by
  unfold declareMethod
  split
  · exact limited_const _
  · rename_i c _
    exact (c.limited_declare m).bind fun _ => limited_const _

theorem limited_resolve (signature : String) :
    Limited (Refused ProgramFault.IsTooDeep) fun _ => h.resolve signature := by
  intro N N' hN
  unfold resolve
  rcases (MethodId.limited_read signature.toList).cases hN with ⟨e, he, hdeep⟩ | heq
  · dsimp only at he ⊢
    rw [he]
    exact Or.inl hdeep
  · dsimp only at heq ⊢
    rw [← heq]
    split
    · exact Or.inr rfl
    · split
      · exact Or.inr rfl
      · rename_i c _
        exact (c.kept_canLookUp _).guard_not (S := Refused ProgramFault.IsTooDeep)
          (y := fun _ => .error .tooDeep) (limited_const _) (fun _ => trivial) hN

end Hierarchy

/-! ## Program texts -/

/-- The errors in a text that refuse what is nested too deep. -/
def ProgramError.IsTooDeep (e : ProgramError) : Prop :=
  e.fault.IsTooDeep

/-- The errors on a whole text that refuse what is nested too deep. -/
def LoadError.IsTooDeep : LoadError → Prop
  | .invalid e => e.IsTooDeep
  | _ => False

namespace Resolve

variable (o : Origin)

theorem limited_attempt {α : Type} {x : Nesting → Except ProgramFault α} (pos : Nat)
    (hx : Limited (Refused ProgramFault.IsTooDeep) x) :
    Limited (Refused ProgramError.IsTooDeep) fun N => o.attempt pos (x N) :=
  hx.map fun _ he => he

theorem limited_declareMethod (cls : Source.Class) (h : Hierarchy) (m : Source.Method) :
    Limited (Refused ProgramError.IsTooDeep) fun _ => declareMethod o cls h m := by
  unfold declareMethod
  dsimp only
  split
  · exact (limited_const (o.reject m.pos (.abstractWithBody m.subsig))).bind fun _ =>
      limited_attempt o m.pos (h.limited_declareMethod _)
  · exact limited_attempt o m.pos (h.limited_declareMethod _)

theorem limited_hierarchy (classes : List Source.Class) :
    Limited (Refused ProgramError.IsTooDeep) fun _ => hierarchy o classes := by
  unfold hierarchy
  refine (limited_const (declareClasses o classes)).bind fun h => ?_
  refine (limited_const (classes.foldlM (linkSupertypes o) h)).bind fun h => ?_
  refine (limited_const (classes.foldlM (addMember o) h)).bind fun h => ?_
  exact (limited_foldlM (fun h (c, m) => limited_declareMethod o c h m) _ h).bind fun h => limited_const _

end Resolve

theorem Hierarchy.limited_ofText (text : List Char) (source : Option String) :
    Limited (Refused LoadError.IsTooDeep) fun _ => Hierarchy.ofText text source := by
  unfold ofText
  split
  · exact limited_const _
  · rename_i classes _
    split
    · exact limited_const _
    · exact (Resolve.limited_hierarchy ⟨text, source⟩ classes).map (k := Except.mapError LoadError.invalid)
        fun _ he => he

/-- A program text is read just as under higher limits, or refused because a type in it is nested too
deep. -/
theorem Program.limited_ofText (text : List Char) (main : Option String) (source : Option String) :
    Limited (Refused LoadError.IsTooDeep) fun _ => Program.ofText text main source := by
  unfold ofText
  refine (Hierarchy.limited_ofText text source).bind fun h => ?_
  cases main with
  | none => exact limited_const _
  | some signature =>
      intro N N' hN
      rcases (h.limited_resolve signature).cases hN with ⟨fault, he, hdeep⟩ | heq
      · dsimp only at he ⊢
        rw [he]
        exact Or.inl hdeep
      · dsimp only at heq ⊢
        rw [← heq]
        exact Or.inr rfl

theorem Program.limited_ofFile (path text : String) (main : Option String) :
    Limited (Refused LoadError.IsTooDeep) fun _ => Program.ofFile path text main :=
  Program.limited_ofText _ main (some path)

end TacFlow
