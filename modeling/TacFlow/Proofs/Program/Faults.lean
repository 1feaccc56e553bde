import TacFlow.Proofs.Program.Inheritance

/-!
# Which stages look for cycles

Name resolution refuses a class for a cycle at one place only, when the class is made a member. The stages
behind that can find many other faults, in the methods and in their bodies. A step is `CycleBlind` if it
never raises that one; steps are put together from steps, and so is the property.
-/

namespace TacFlow.Resolve

open Source (Action Item)

/-- A step never refuses a class for a cycle. -/
def CycleBlind {α : Type} (x : Except ProgramError α) : Prop :=
  ∀ place name, x ≠ .error ⟨place, .cyclicInheritance name⟩

variable {α β γ : Type} {o : Origin} {sc : Scope} {h : Hierarchy} {pos : Nat}

/-! ## Steps put together -/

theorem cycleBlind_ok (a : α) : CycleBlind (.ok a) :=
  fun _ _ h => by cases h

theorem cycleBlind_bind {x : Except ProgramError α} {f : α → Except ProgramError β}
    (hx : CycleBlind x) (hf : ∀ a, CycleBlind (f a)) : CycleBlind (x >>= f) := by
  intro place name h
  cases x with
  | error e =>
      cases h
      exact hx _ _ rfl
  | ok a => exact hf a place name h

theorem cycleBlind_mapM {f : α → Except ProgramError β} (hf : ∀ a, CycleBlind (f a)) (as : List α) :
    CycleBlind (as.mapM f) := by
  induction as with
  | nil => exact cycleBlind_ok []
  | cons a as ih =>
      rw [List.mapM_cons]
      exact cycleBlind_bind (hf a) fun b => cycleBlind_bind ih fun bs => cycleBlind_ok (b :: bs)

theorem cycleBlind_mapM_option {f : α → Except ProgramError β} (hf : ∀ a, CycleBlind (f a))
    (x : Option α) : CycleBlind (x.mapM f) := by
  cases x with
  | none => exact cycleBlind_ok none
  | some a => exact cycleBlind_bind (hf a) fun b => cycleBlind_ok (some b)

theorem cycleBlind_foldlM {f : β → α → Except ProgramError β} (hf : ∀ b a, CycleBlind (f b a))
    (as : List α) (b : β) : CycleBlind (as.foldlM f b) := by
  induction as generalizing b with
  | nil => exact cycleBlind_ok b
  | cons a as ih =>
      rw [List.foldlM_cons]
      exact cycleBlind_bind (hf b a) ih

/-- A step that refuses the program for another fault. -/
theorem cycleBlind_reject {fault : ProgramFault} (hf : ∀ name, fault ≠ .cyclicInheritance name) :
    CycleBlind (o.reject pos fault : Except ProgramError α) := by
  intro place name h
  cases h
  exact hf _ rfl

theorem cycleBlind_attempt {x : Except ProgramFault α}
    (hx : ∀ name, x ≠ .error (.cyclicInheritance name)) : CycleBlind (o.attempt pos x) := by
  cases x with
  | ok a => exact cycleBlind_ok a
  | error fault => exact cycleBlind_reject fun name h => hx name (by rw [h])

/-! ## Bodies -/

theorem cycleBlind_lookup (name : String) : CycleBlind (lookup o h pos name) := by
  unfold lookup
  split
  · exact cycleBlind_ok _
  · exact cycleBlind_reject nofun

theorem cycleBlind_declare (type : Ty) (name : String) : CycleBlind (sc.declare pos type name) := by
  unfold Scope.declare
  split
  · exact cycleBlind_reject nofun
  · exact cycleBlind_ok _

theorem cycleBlind_var (name : String) : CycleBlind (sc.var pos name) := by
  unfold Scope.var
  split
  · exact cycleBlind_ok _
  · exact cycleBlind_reject nofun

theorem cycleBlind_atom (a : Source.Atom) : CycleBlind (sc.atom pos a) := by
  cases a with
  | lit n => exact cycleBlind_ok _
  | name x => exact cycleBlind_bind (cycleBlind_var x) fun _ => cycleBlind_ok _

theorem cycleBlind_access (a : Source.Access) : CycleBlind (sc.access pos a) := by
  cases a with
  | element base index =>
      exact cycleBlind_bind (cycleBlind_var base) fun _ =>
        cycleBlind_bind (cycleBlind_atom index) fun _ => cycleBlind_ok _
  | field base name =>
      unfold Scope.access
      dsimp only
      split
      · exact cycleBlind_ok _
      · split
        · exact cycleBlind_ok _
        · exact cycleBlind_reject nofun

theorem cycleBlind_target (t : Source.Target) : CycleBlind (sc.target pos t) := by
  cases t with
  | name x => exact cycleBlind_bind (cycleBlind_var x) fun _ => cycleBlind_ok _
  | access a => exact cycleBlind_access a

theorem cycleBlind_value (v : Source.Value) : CycleBlind (sc.value pos v) := by
  cases v with
  | atom a => exact cycleBlind_atom a
  | alloc t => exact cycleBlind_ok _
  | cast t a => exact cycleBlind_bind (cycleBlind_atom a) fun _ => cycleBlind_ok _
  | binary l op r =>
      exact cycleBlind_bind (cycleBlind_atom l) fun _ =>
        cycleBlind_bind (cycleBlind_atom r) fun _ => cycleBlind_ok _
  | access a => exact cycleBlind_bind (cycleBlind_access a) fun _ => cycleBlind_ok _

theorem cycleBlind_call (c : Source.Call) : CycleBlind (sc.call pos c) := by
  refine cycleBlind_bind (cycleBlind_lookup _) fun owner => ?_
  have hrest : CycleBlind (do
      let args ← c.args.mapM (sc.atom pos)
      let receiver ← c.receiver.mapM (sc.var pos)
      return (⟨c.kind, ⟨owner.id, c.callee.subsig⟩, receiver, args⟩ : Call)) :=
    cycleBlind_bind (cycleBlind_mapM cycleBlind_atom _) fun _ =>
      cycleBlind_bind (cycleBlind_mapM_option cycleBlind_var _) fun _ => cycleBlind_ok _
  dsimp only
  split
  · exact cycleBlind_bind (cycleBlind_reject nofun) fun _ => hrest
  · exact hrest

theorem cycleBlind_stmt (a : Action) : CycleBlind (sc.stmt pos a) := by
  cases a with
  | branch l op r label =>
      exact cycleBlind_bind (cycleBlind_atom l) fun _ =>
        cycleBlind_bind (cycleBlind_atom r) fun _ => cycleBlind_ok _
  | goto label => exact cycleBlind_ok _
  | switch x cases default => exact cycleBlind_bind (cycleBlind_var x) fun _ => cycleBlind_ok _
  | ret x =>
      exact cycleBlind_bind (cycleBlind_mapM_option cycleBlind_var x) fun _ => cycleBlind_ok _
  | nop => exact cycleBlind_ok _
  | invoke result c =>
      exact cycleBlind_bind (cycleBlind_mapM_option cycleBlind_var result) fun _ =>
        cycleBlind_bind (cycleBlind_call c) fun _ => cycleBlind_ok _
  | assign t v =>
      exact cycleBlind_bind (cycleBlind_target t) fun _ =>
        cycleBlind_bind (cycleBlind_value v) fun _ => cycleBlind_ok _

theorem cycleBlind_collectLabels (stmts : List Source.Stmt) : CycleBlind (collectLabels o stmts) := by
  refine cycleBlind_foldlM (fun labels e => ?_) _ _
  refine cycleBlind_foldlM (fun labels name => ?_) _ _
  split
  · exact cycleBlind_reject nofun
  · exact cycleBlind_ok _

theorem cycleBlind_findLabel (labels : Labels) (name : String) :
    CycleBlind (findLabel o labels pos name) := by
  unfold findLabel
  split
  · exact cycleBlind_ok _
  · exact cycleBlind_reject nofun

theorem cycleBlind_linkTargets (labels : Labels) (source : Source.Stmt) (s : Stmt) :
    CycleBlind (linkTargets o labels source s) := by
  unfold linkTargets
  split
  · exact cycleBlind_bind (cycleBlind_findLabel _ _) fun _ => cycleBlind_ok _
  · exact cycleBlind_bind (cycleBlind_findLabel _ _) fun _ => cycleBlind_ok _
  · refine cycleBlind_bind (cycleBlind_mapM ?_ _) fun _ =>
      cycleBlind_bind (cycleBlind_findLabel _ _) fun _ => cycleBlind_ok _
    exact fun c => cycleBlind_bind (cycleBlind_findLabel _ _) fun _ => cycleBlind_ok _
  · exact cycleBlind_ok _

theorem cycleBlind_body {id : MethodId} (m : Source.Method) (items : List Item) :
    CycleBlind (body o h id m items) := by
  have hparams : CycleBlind (paramScope o h id m) := by
    refine cycleBlind_foldlM (fun s p => ?_) _ _
    obtain ⟨type, name⟩ := p
    cases name with
    | none => exact cycleBlind_reject nofun
    | some name => exact cycleBlind_declare _ _
  have hlocals : ∀ s, CycleBlind (bodyScope s items) := by
    refine fun s => cycleBlind_foldlM (fun s item => ?_) _ _
    cases item with
    | locals type names pos => exact cycleBlind_foldlM (fun s name => cycleBlind_declare _ _) _ _
    | stmt s => exact cycleBlind_ok _
  exact cycleBlind_bind hparams fun _ => cycleBlind_bind (hlocals _) fun _ =>
    cycleBlind_bind (cycleBlind_collectLabels _) fun _ =>
      cycleBlind_bind (cycleBlind_mapM (fun _ => cycleBlind_stmt _) _) fun _ =>
        cycleBlind_bind (cycleBlind_mapM (fun _ => cycleBlind_linkTargets _ _ _) _) fun _ =>
          cycleBlind_ok _

/-! ## Methods -/

theorem cycleBlind_declareMethod [Nesting] (cls : Source.Class) (m : Source.Method) :
    CycleBlind (declareMethod o cls h m) := by
  have hclass : ∀ (k : Method) name, h.declareMethod k ≠ .error (.cyclicInheritance name) := by
    intro k name hq
    unfold Hierarchy.declareMethod ClassDecl.declare at hq
    split at hq
    · cases hq
    · split at hq
      · cases hq
      · split at hq <;> cases hq
  unfold declareMethod
  dsimp only
  split
  · exact cycleBlind_bind (cycleBlind_reject nofun) fun _ => cycleBlind_attempt (hclass _)
  · exact cycleBlind_attempt (hclass _)

theorem cycleBlind_addBody (e : Source.Class × Source.Method) : CycleBlind (addBody o h e) := by
  unfold addBody
  split
  · exact cycleBlind_ok _
  · exact cycleBlind_bind (cycleBlind_body _ _) fun _ => cycleBlind_ok _

/-- **Behind the members nothing looks for cycles.** -/
theorem cycleBlind_methods [Nesting] (classes : List Source.Class) (h : Hierarchy) :
    CycleBlind (do
      let h ← (methodsOf classes).foldlM (fun h (c, m) => declareMethod o c h m) h
      (methodsOf classes).foldlM (addBody o) h) := by
  refine cycleBlind_bind (cycleBlind_foldlM (fun h e => ?_) _ h)
    (cycleBlind_foldlM (fun _ e => cycleBlind_addBody e) _)
  exact cycleBlind_declareMethod e.1 e.2

end TacFlow.Resolve
