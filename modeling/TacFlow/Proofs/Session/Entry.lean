import TacFlow.Proofs.Calls.Reachability
import TacFlow.Proofs.Program.Signature
import TacFlow.Proofs.Session.Effects

/-!
# The start of the call graph

Building a call graph is the one analysis of a plan that can refuse to run: the method that it is to
start from may be none, or there may be none to start from. Types that are nested too deep can stop it as
well, where a signature has to be read, written, or looked up; in a program and with an entry that are
shallow that does not happen.
-/

namespace TacFlow

/-- The failures by which an entry method is refused: what is asked for names none, or there is none. -/
inductive Failure.RefusesEntry [Nesting] : Failure → Prop where
  | program {fault : ProgramFault} : fault.isWritable = true → RefusesEntry (.program fault)
  | noEntryMethod : RefusesEntry .noEntryMethod
  | entryUnreadable (signature : Json.Str) : RefusesEntry (.entryUnreadable signature)
  | entrySubsignature (part : Json.Str) : RefusesEntry (.entrySubsignature part)
  | entryClass (name : String) (signature : Json.Str) : RefusesEntry (.entryClass name signature)
  | entryMethod (signature : Json.Str) : RefusesEntry (.entryMethod signature)

/-- The failures that come of types that are nested too deep. -/
inductive Failure.IsNested [Nesting] : Failure → Prop where
  | tooDeep : IsNested .tooDeep
  | program {fault : ProgramFault} : fault.isWritable = false → IsNested (.program fault)

/-- Whatever a text says as a signature, no type in it is nested too deep to be read or looked up by. -/
def Json.Str.IsShallow [Nesting] (s : Json.Str) : Prop :=
  match MethodId.read s.shown with
  | .ok (_, subsig) => subsig.isShallow = true
  | .error e => e ≠ .tooDeep

/-- No signature of a method has a type that is nested too deep to be written, and no signature of a call one
that is nested too deep to be looked up by. -/
structure Hierarchy.IsShallow [Nesting] (h : Hierarchy) : Prop where
  declared {d : Method} : d ∈ h.declaredMethods → d.id.isWritable = true
  called {s : CallSite} {c : Call} : h.CallAt s c → c.target.subsig.isShallow = true

/-- What a configuration names as the entry is shallow, if it is a text. -/
def AnalysisConfig.IsShallow [Nesting] (c : AnalysisConfig) : Prop :=
  ∀ s, c.get? "entry" = some (.str s) → s.IsShallow

/-! ## Looking up -/

/-- A string that is a text is the string of that text. -/
theorem Json.Str.eq_ofString_of_text? {s : Json.Str} {t : String} (h : s.text? = some t) :
    s = .ofString t := by
  obtain ⟨symbols⟩ := s
  obtain ⟨cs, hcs, rfl⟩ := Option.map_eq_some_iff.mp h
  rw [ofString, String.toList_ofList, mk.injEq]
  clear h
  induction symbols generalizing cs with
  | nil => cases hcs; rfl
  | cons x symbols ih =>
      obtain ⟨c, hc, rest, hrest, rfl⟩ : ∃ c, x.char? = some c ∧
          ∃ rest, symbols.mapM Symbol.char? = some rest ∧ c :: rest = cs := by
        simpa [List.mapM_cons, Option.bind_eq_some_iff] using hcs
      cases x with
      | char d => cases hc; rw [List.map_cons, ← ih rest hrest]
      | surrogate n => exact absurd hc (by simp [Symbol.char?])

/-- A string that is a text is shown as it is. -/
theorem Json.Str.toList_of_text? {s : Json.Str} {t : String} (h : s.text? = some t) :
    t.toList = s.shown := by
  obtain rfl := eq_ofString_of_text? h
  simp [ofString, shown, Symbol.shown, Function.comp_def]

theorem ClassDecl.canLookUp_of_isShallow [Nesting] {c : ClassDecl} {s : Subsignature}
    (h : s.isShallow = true) : c.canLookUp s = true := by
  obtain ⟨hsearch, hcompare⟩ := (Bool.and_eq_true _ _).mp h
  simp [canLookUp, hsearch, hcompare]

namespace Hierarchy

variable {h : Hierarchy} {d m : Method} {entry t : MethodId} {s : Subsignature} {c : ClassId}

theorem mem_declaredMethods_of_resolve [Nesting] {signature : String} (hd : h.resolve signature = .ok d) :
    d ∈ h.declaredMethods := by
  unfold resolve at hd
  split at hd
  · exact absurd hd (by simp)
  · split at hd
    · exact absurd hd (by simp)
    · rename_i c hc
      split at hd
      · exact absurd hd (by simp)
      · split at hd
        · exact absurd hd (by simp)
        · rename_i m hm
          cases hd
          obtain ⟨a, _, hc⟩ := Option.bind_eq_some_iff.mp hc
          exact mem_declaredMethods.mpr ⟨c, (mem_of_class? hc).1, List.mem_of_find?_eq_some hm⟩

theorem mem_declaredMethods_of_mem_methods (hd : d ∈ h.methods) : d ∈ h.declaredMethods := by
  obtain ⟨c, hc, hd⟩ := List.mem_flatMap.mp hd
  obtain ⟨_, _, hc⟩ := List.mem_filterMap.mp hc
  exact mem_declaredMethods.mpr ⟨c, (mem_of_class? hc).1, hd⟩

/-- A signature is refused, unless a type in it is nested too deep. -/
theorem isWritable_of_resolve [Nesting] {signature : String} {fault : ProgramFault} {shown : Json.Str}
    (htext : shown.text? = some signature) (hshallow : shown.IsShallow)
    (hd : h.resolve signature = .error fault) : fault.isWritable = true := by
  rw [Json.Str.IsShallow, ← Json.Str.toList_of_text? htext] at hshallow
  unfold resolve at hd
  split at hd
  · rename_i e he
    cases hd
    rw [he] at hshallow
    simpa [ProgramFault.isWritable] using hshallow
  · rename_i owner subsig he
    rw [he] at hshallow
    split at hd
    · cases hd; rfl
    · rename_i c _
      rw [ClassDecl.canLookUp_of_isShallow hshallow] at hd
      simp only [Bool.not_true, Bool.false_eq_true, if_false] at hd
      split at hd
      · cases hd; rfl
      · exact absurd hd (by simp)

theorem exists_method?_of_dispatches (hd : Dispatches h s c (some m)) :
    ∃ a, h.method? ⟨a, s⟩ = some m := by
  generalize hr : some m = r at hd
  induction hd with
  | found hm _ => cases hr; exact ⟨_, hm⟩
  | missing _ _ => exact absurd hr (by simp)
  | inherited _ _ _ ih => exact ih hr

/-- What a call can run is declared. -/
theorem exists_declared_of_mem_callTargets (hw : h.WellFormed) {kind : CallKind} {target : MethodId}
    (ht : t ∈ h.callTargets kind target) : ∃ d ∈ h.declaredMethods, d.id = t := by
  have hfound : ∀ {a s m}, Dispatches h s a (some m) → m ∈ h.declaredMethods := by
    intro a s m hd
    obtain ⟨_, hm⟩ := exists_method?_of_dispatches hd
    exact mem_declaredMethods_of_method? hm
  have hsearch : kind = .virtual ∨ kind = .interface → ∃ d ∈ h.declaredMethods, d.id = t := by
    intro hkind
    obtain ⟨_, m, _, hd, hid⟩ := (mem_callTargets hw hkind).mp ht
    exact ⟨m, hfound hd, hid⟩
  cases kind with
  | static =>
      obtain ⟨m, hm, hid⟩ := Option.map_eq_some_iff.mp (Option.mem_toList.mp ht)
      exact ⟨m, mem_declaredMethods_of_method? hm, hid⟩
  | special =>
      obtain ⟨m, hm, hid⟩ := Option.map_eq_some_iff.mp (Option.mem_toList.mp ht)
      exact ⟨m, hfound ((dispatch_eq_some hw).mp hm), hid⟩
  | virtual => exact hsearch (Or.inl rfl)
  | interface => exact hsearch (Or.inr rfl)

/-- Whatever can be called from a declared method is declared. -/
theorem exists_declared_of_mem_reachable (hw : h.WellFormed)
    (hentry : ∃ d ∈ h.declaredMethods, d.id = entry) {m : MethodId}
    (hm : m ∈ (h.callGraph entry).reachable) : ∃ d ∈ h.declaredMethods, d.id = m :=
  reachable_induction hw hentry
    (fun _ _ _ _ _ _ ht => exists_declared_of_mem_callTargets hw ht) m hm

/-- In a shallow program every reachable method can be analysed. -/
theorem canExplore_of_isShallow [Nesting] (hw : h.WellFormed) (hshallow : h.IsShallow)
    (hentry : ∃ d ∈ h.declaredMethods, d.id = entry) {m : MethodId}
    (hm : m ∈ (h.callGraph entry).reachable) : h.canExplore m = true := by
  unfold canExplore
  split
  · obtain ⟨d, hd, rfl⟩ := exists_declared_of_mem_reachable hw hentry hm
    exact hshallow.declared hd
  · rename_i b hb
    rw [List.all_eq_true]
    rintro ⟨i, c⟩ hc
    obtain ⟨result, hs⟩ := Body.mem_calls.mp hc
    have hcalled := hshallow.called (s := ⟨i, m⟩) ⟨b, result, hb, hs⟩
    simp [canFindTargets, hcalled]

/-- In a shallow program the call graph is built from any declared method. -/
theorem buildCallGraph?_of_isShallow [Nesting] (hw : h.WellFormed) (hshallow : h.IsShallow)
    (hentry : ∃ d ∈ h.declaredMethods, d.id = entry) :
    h.buildCallGraph? entry = some (h.callGraph entry) := by
  have hall : (h.callGraph entry).reachable.all h.canExplore = true :=
    List.all_eq_true.mpr fun _ => canExplore_of_isShallow hw hshallow hentry
  simp [buildCallGraph?, hall]

/-- A call graph that is built is the one that is defined without limits. -/
theorem callGraph_of_buildCallGraph? [Nesting] {g : CallGraph}
    (hg : h.buildCallGraph? entry = some g) : g = h.callGraph entry := by
  obtain ⟨_, rfl⟩ : _ ∧ h.callGraph entry = g := by simpa [buildCallGraph?] using hg
  rfl

end Hierarchy

/-! ## Refusals -/

/-- A call graph of the hierarchy cannot be built: the entry method is refused, or a type is nested too
deep in the program or in the entry. -/
def Failure.Halts [Nesting] (f : Failure) (h : Hierarchy) (c : AnalysisConfig) : Prop :=
  f.RefusesEntry ∨ f.IsNested ∧ ¬ (h.IsShallow ∧ c.IsShallow)

theorem Failure.halts_of_isNested [Nesting] {f : Failure} {h : Hierarchy} {c : AnalysisConfig}
    (hf : f.IsNested) (hdeep : h.IsShallow → ¬ c.IsShallow) : f.Halts h c :=
  Or.inr ⟨hf, fun hshallow => hdeep hshallow.1 hshallow.2⟩

/-- A string that holds a surrogate names no entry method. -/
theorem Failure.halts_ofStrayEntry [Nesting] {h : Hierarchy} {c : AnalysisConfig} {s : Json.Str}
    (hs : c.get? "entry" = some (.str s)) : (Failure.ofStrayEntry h s).Halts h c := by
  unfold ofStrayEntry
  split
  · exact Or.inl (.entrySubsignature _)
  · exact Or.inl (.entryUnreadable _)
  · rename_i hread
    refine halts_of_isNested .tooDeep fun _ hc => ?_
    have hshallow := hc s hs
    rw [Json.Str.IsShallow, hread] at hshallow
    exact hshallow rfl
  · split
    · exact Or.inl (.entryMethod _)
    · exact Or.inl (.entryClass _ _)

namespace Manager

variable {m : Manager} {c : AnalysisConfig}

/-- Of all that is stored only the entry method of the program differs. -/
structure Settles (m m' : Manager) : Prop where
  hierarchy : m'.program.hierarchy = m.program.hierarchy
  methods : m'.methods = m.methods
  callGraph : m'.callGraph = m.callGraph
  icfg : m'.icfg = m.icfg
  interConstants : m'.interConstants = m.interConstants

theorem settles_self (m : Manager) : m.Settles m :=
  ⟨rfl, rfl, rfl, rfl, rfl⟩

/-- A text that is given as the entry names a declared method, or it is refused. -/
theorem ensures_chosenEntry [Nesting] (hentry : ∀ v, c.get? "entry" = some v → ∃ s, v = .str s) :
    Ensures (chosenEntry c) m
      (fun o m' => m' = m ∧
        ∀ entry, o = some entry → ∃ d ∈ m.program.hierarchy.declaredMethods, d.id = entry)
      (fun f m' => m' = m ∧ f.Halts m.program.hierarchy c) := by
  unfold chosenEntry
  cases hv : c.get? "entry" with
  | none => simp
  | some v =>
      obtain ⟨s, rfl⟩ := hentry v hv
      dsimp only
      split
      · simp
      · simp only [ensures_bind, ensures_get, ensures_orMissing, method, ensures_orFail,
          ensures_pure, true_and]
        refine ⟨fun t ht => ⟨fun d hd => ?_, fun fault hfault => ?_⟩, fun _ => ?_⟩
        · rintro _ ⟨⟩
          exact ⟨d, Hierarchy.mem_declaredMethods_of_resolve hd, rfl⟩
        · cases hw : fault.isWritable with
          | true => exact Or.inl (.program hw)
          | false =>
              refine Failure.halts_of_isNested (.program hw) fun _ hc => ?_
              rw [Hierarchy.isWritable_of_resolve ht (hc s hv) hfault] at hw
              exact absurd hw (by simp)
        · exact Failure.halts_ofStrayEntry hv

/-- The method that a call graph starts from is declared, or there is none. -/
theorem ensures_entryMethod [Nesting] {o : Option MethodId}
    (hmain : ∀ main, m.program.main = some main →
      ∃ d ∈ m.program.hierarchy.declaredMethods, d.id = main)
    (ho : ∀ entry, o = some entry → ∃ d ∈ m.program.hierarchy.declaredMethods, d.id = entry) :
    Ensures (entryMethod o) m
      (fun entry m' => m.Settles m' ∧ ∃ d ∈ m.program.hierarchy.declaredMethods, d.id = entry)
      (fun f m' => m.Settles m' ∧ f.Halts m.program.hierarchy c) := by
  have hsettles : m.Settles { m with program := m.program.settleMain } := ⟨rfl, rfl, rfl, rfl, rfl⟩
  unfold entryMethod
  cases o with
  | some entry => exact ⟨settles_self m, ho entry rfl⟩
  | none =>
      simp only [ensures_bind, ensures_get, ensures_modify, ensures_orMissing]
      refine ⟨fun main hsettled => ?_, fun _ => ⟨hsettles, Or.inl .noEntryMethod⟩⟩
      have hdeclared : ∃ d ∈ m.program.hierarchy.declaredMethods, d.id = main := by
        cases hchosen : m.program.main with
        | some chosen =>
            rw [Program.settleMain, hchosen] at hsettled
            exact Option.some.inj hsettled ▸ hmain chosen hchosen
        | none =>
            rw [Program.settleMain, hchosen] at hsettled
            obtain ⟨d, hd, hid⟩ := Option.map_eq_some_iff.mp hsettled
            exact ⟨d, Hierarchy.mem_declaredMethods_of_mem_methods (List.mem_of_find?_eq_some hd), hid⟩
      split
      · rename_i hdeep
        refine ⟨hsettles, Failure.halts_of_isNested .tooDeep fun hshallow _ => ?_⟩
        obtain ⟨d, hd, rfl⟩ := hdeclared
        simp [hshallow.declared hd] at hdeep
      · exact ⟨hsettles, hdeclared⟩

/-- **Building the call graph stores it**, or the entry is refused and nothing is stored. -/
theorem ensures_runCallGraph [Nesting] (hw : m.program.hierarchy.WellFormed)
    (hmain : ∀ main, m.program.main = some main →
      ∃ d ∈ m.program.hierarchy.declaredMethods, d.id = main)
    (hentry : ∀ v, c.get? "entry" = some v → ∃ s, v = .str s) :
    Ensures (runCallGraph c) m
      (fun _ m' => ∃ m₁ entry, m.Settles m₁ ∧
        m' = { m₁ with callGraph := some (m.program.hierarchy.callGraph entry) })
      (fun f m' => m.Settles m' ∧ f.Halts m.program.hierarchy c) := by
  unfold runCallGraph
  rw [ensures_bind]
  refine (ensures_chosenEntry hentry).imp ?_ ?_
  · rintro o m ⟨rfl, ho⟩
    rw [ensures_bind]
    refine (ensures_entryMethod hmain ho).imp ?_ fun _ _ h => h
    rintro entry m₁ ⟨hsettles, hdeclared⟩
    simp only [ensures_bind, ensures_get, ensures_orMissing, hsettles.hierarchy]
    refine ⟨fun g hg => ?_, fun hdeep => ?_⟩
    · rw [Hierarchy.callGraph_of_buildCallGraph? hg]
      exact ⟨m₁, entry, hsettles, rfl⟩
    · refine ⟨hsettles, Failure.halts_of_isNested .tooDeep fun hshallow _ => ?_⟩
      rw [Hierarchy.buildCallGraph?_of_isShallow hw hshallow hdeclared] at hdeep
      exact absurd hdeep (by simp)
  · rintro f _ ⟨rfl, hf⟩
    exact ⟨settles_self _, hf⟩

end Manager

end TacFlow
