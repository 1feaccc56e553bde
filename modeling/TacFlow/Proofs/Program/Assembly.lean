import TacFlow.Proofs.Program.Inheritance
import TacFlow.Proofs.Program.Signature

/-!
# Hierarchies are assembled step by step

A hierarchy starts empty. Classes are declared, related to other classes, made members, and get methods,
which get code. Whatever the order of these steps is, the members have different names and a class has
one method of each subsignature, so the written form of a signature leads to the one method that it
was written for, unless the method is nested too deep to be looked up.
-/

namespace TacFlow

namespace Hierarchy

variable {h h' : Hierarchy} {c d : ClassDecl} {a : ClassId} {m : Method}

/-! ## Steps -/

/-- A hierarchy that was put together by its operations. -/
inductive Assembled [Nesting] : Hierarchy → Prop where
  | empty : Assembled .empty
  /-- A class is declared, without methods. -/
  | declare {h : Hierarchy} {c : ClassDecl} : Assembled h → c.id ∉ h.ids → c.methods = [] →
      Assembled (h.declare c)
  /-- A class gets other supertypes, or becomes an interface or abstract. -/
  | relate {h : Hierarchy} {c d : ClassDecl} : Assembled h → h.class? d.id = some c →
      d.methods = c.methods → Assembled (h.update d)
  /-- A class becomes a member. -/
  | add {h h' : Hierarchy} {a : ClassId} : Assembled h → h.add a = .ok h' → Assembled h'
  /-- A method is declared. -/
  | declareMethod {h h' : Hierarchy} {m : Method} : Assembled h → h.declareMethod m = .ok h' →
      Assembled h'
  /-- A method gets code. -/
  | setBody {h : Hierarchy} (b : Body) : Assembled h → Assembled (Resolve.setBody h b)

/-- Classes, members and methods are told apart. -/
structure Distinct (h : Hierarchy) : Prop where
  ids : h.ids.Nodup
  names : (h.members.map (·.name)).Nodup
  owned : h.Owned

/-! ## What every step keeps -/

theorem ids_update (d : ClassDecl) : (h.update d).ids = h.ids := by
  unfold ids update
  rw [List.map_map]
  refine List.map_congr_left fun c _ => ?_
  simp only [Function.comp_apply]
  split
  · exact Eq.symm ‹_›
  · rfl

/-- Replacing a class keeps methods where they belong if the new class has only methods of its own. -/
theorem Owned.update (ho : h.Owned) (howner : ∀ m ∈ d.methods, m.id.owner = d.id)
    (hnodup : (d.methods.map (·.id)).Nodup) : (h.update d).Owned := by
  refine ⟨fun {c m} hc hm => ?_, fun {c} hc => ?_⟩
  · rcases Resolve.mem_of_mem_update hc with rfl | hc
    · exact howner m hm
    · exact ho.owner hc hm
  · rcases Resolve.mem_of_mem_update hc with rfl | hc
    · exact hnodup
    · exact ho.nodup hc

theorem Distinct.declare (hd : h.Distinct) (hnew : c.id ∉ h.ids) (hbare : c.methods = []) :
    (h.declare c).Distinct := by
  have hids : (h.declare c).ids = h.ids ++ [c.id] := by simp [Hierarchy.ids, Hierarchy.declare]
  refine ⟨?_, hd.names, fun {e m} he hm => ?_, fun {e} he => ?_⟩
  · rw [hids, ← List.concat_eq_append]
    exact hd.ids.concat hnew
  · rcases List.mem_append.mp he with he | he
    · exact hd.owned.owner he hm
    · rw [List.mem_singleton.mp he, hbare] at hm
      exact absurd hm (by simp)
  · rcases List.mem_append.mp he with he | he
    · exact hd.owned.nodup he
    · rw [List.mem_singleton.mp he, hbare]
      exact List.nodup_nil

theorem Distinct.relate (hd : h.Distinct) (hc : h.class? d.id = some c)
    (hmethods : d.methods = c.methods) : (h.update d).Distinct := by
  obtain ⟨hmem, hid⟩ := mem_of_class? hc
  refine ⟨(ids_update d).symm ▸ hd.ids, hd.names, hd.owned.update ?_ ?_⟩
  · rw [hmethods, ← hid]
    exact fun m hm => hd.owned.owner hmem hm
  · rw [hmethods]
    exact hd.owned.nodup hmem

theorem Distinct.add (hd : h.Distinct) (hstep : h.add a = .ok h') : h'.Distinct := by
  unfold Hierarchy.add at hstep
  split at hstep
  · exact absurd hstep (by simp)
  · rename_i hnew
    cases hstep
    refine ⟨hd.ids, ?_, fun hc hm => hd.owned.owner hc hm, fun hc => hd.owned.nodup hc⟩
    rw [List.map_append, List.map_singleton, ← List.concat_eq_append]
    refine hd.names.concat fun hname => hnew ?_
    obtain ⟨b, hb, hq⟩ := List.mem_map.mp hname
    exact List.any_eq_true.mpr ⟨b, hb, by simpa using hq⟩

theorem Distinct.declareMethod [Nesting] (hd : h.Distinct) (hstep : h.declareMethod m = .ok h') :
    h'.Distinct := by
  unfold Hierarchy.declareMethod at hstep
  split at hstep
  · exact absurd hstep (by simp)
  rename_i c hc
  obtain ⟨d, hdeclare, hstep⟩ := Resolve.bind_eq_ok.mp hstep
  cases hstep
  unfold ClassDecl.declare at hdeclare
  split at hdeclare
  · exact absurd hdeclare (by simp)
  split at hdeclare
  · exact absurd hdeclare (by simp)
  rename_i hnew
  cases hdeclare
  obtain ⟨hmem, hid⟩ := mem_of_class? hc
  refine ⟨(ids_update _).symm ▸ hd.ids, hd.names, hd.owned.update ?_ ?_⟩
  · intro k hk
    rcases List.mem_append.mp hk with hk | hk
    · exact Eq.trans (hd.owned.owner hmem hk) rfl
    · rw [List.mem_singleton.mp hk, hid]
  · -- a method of the same identity would have been found
    rw [List.map_append, List.map_singleton, ← List.concat_eq_append]
    refine (hd.owned.nodup hmem).concat fun hold => hnew ?_
    obtain ⟨k, hk, hq⟩ := List.mem_map.mp hold
    exact List.find?_isSome.mpr ⟨k, hk, by simp [hq]⟩

theorem Distinct.setBody (hd : h.Distinct) (b : Body) : (Resolve.setBody h b).Distinct := by
  obtain ⟨houtline, hmembers, howned⟩ := Resolve.fills_setBody (b := b) ⟨rfl, rfl, hd.owned⟩
  exact ⟨Resolve.Fills.ids_eq ⟨houtline, hmembers, howned⟩ ▸ hd.ids, hmembers ▸ hd.names, howned⟩

/-- **However a hierarchy was assembled, its classes, members and methods are told apart.** -/
theorem Assembled.distinct [Nesting] (h : Hierarchy) (ha : h.Assembled) : h.Distinct := by
  induction ha with
  | empty =>
      have hnone : ∀ c, c ∉ Hierarchy.empty.declared := fun c => List.not_mem_nil
      exact ⟨List.nodup_nil, List.nodup_nil, fun hc => absurd hc (hnone _),
        fun hc => absurd hc (hnone _)⟩
  | declare _ hnew hbare ih => exact ih.declare hnew hbare
  | relate _ hc hmethods ih => exact ih.relate hc hmethods
  | add _ hstep ih => exact ih.add hstep
  | declareMethod _ hstep ih => exact ih.declareMethod hstep
  | setBody b _ ih => exact ih.setBody b

/-! ## Looking methods up -/

/-- A member is found by its name. -/
theorem Distinct.member?_eq_some (hd : h.Distinct) (ha : a ∈ h.members) (hc : h.class? a = some c) :
    h.member? a.name = some c := by
  have hfound : (h.members.find? (·.name == a.name)).isSome :=
    List.find?_isSome.mpr ⟨a, ha, by simp⟩
  obtain ⟨b, hb⟩ := Option.isSome_iff_exists.mp hfound
  have hname : b.name = a.name := by simpa using List.find?_some hb
  have hba : b = a := List.inj_on_of_nodup_map hd.names (List.mem_of_find?_eq_some hb) ha hname
  rw [member?, hb, hba, Option.bind_some, hc]

/-- **The written signature of a method leads to the method**, unless a type in it is nested too deep to be
read or looked up by. -/
theorem Distinct.resolve_text [Nesting] (hd : h.Distinct) (hm : m ∈ h.methods)
    (howner : IsClassName m.id.owner.name) (hsubsig : m.id.subsig.IsNamed) :
    h.resolve m.id.text =
      if m.id.subsig.types.all Ty.isReadable then
        if m.id.subsig.isShallow then .ok m else .error .tooDeep
      else .error (.malformed .tooDeep) := by
  obtain ⟨c, hc, hmc⟩ := List.mem_flatMap.mp hm
  obtain ⟨a, ha, hc⟩ := List.mem_filterMap.mp hc
  obtain ⟨hmem, hid⟩ := mem_of_class? hc
  have hname : m.id.owner = a := (hd.owned.owner hmem hmc).trans hid
  have hmember : h.member? m.id.owner.name = some c := hname ▸ hd.member?_eq_some ha hc
  have hmethod := hd.owned.method?_eq_some hmem hmc
  -- the method is there, so its class has to compare the subsignature with an equal one
  have hlook : c.canLookUp m.id.subsig = m.id.subsig.isShallow := by
    simp [ClassDecl.canLookUp, Subsignature.isShallow, hmethod]
  rw [resolve, MethodId.read_text howner hsubsig]
  cases m.id.subsig.types.all Ty.isReadable with
  | true =>
      simp only [if_true, hmember, hlook, hmethod]
      cases m.id.subsig.isShallow <;> rfl
  | false => rfl

end Hierarchy

/-! ## Programs -/

namespace Resolve

variable {o : Origin} {h h' : Hierarchy} {cls : Source.Class} {classes : List Source.Class}

/-- A class is declared by its shell. -/
theorem assembled_declareClasses [Nesting] (hh : declareClasses o classes = .ok h) : h.Assembled := by
  refine foldlM_invariant (P := Hierarchy.Assembled) ?_ .empty hh
  intro h c _ h' ha hstep
  split at hstep
  · exact absurd hstep (by simp [Origin.reject])
  · rename_i hnew
    cases hstep
    refine ha.declare (fun hmem => hnew ?_) rfl
    obtain ⟨d, hd, hid⟩ := Hierarchy.mem_ids.mp hmem
    exact List.find?_isSome.mpr ⟨d, hd, by rw [hid]; simp [shell]⟩

/-- Linking relates a class, which has no methods yet. -/
theorem assembled_linkSupertypes [Nesting] {kinds : List (ClassId × Bool)} (hn : (kinds.map (·.1)).Nodup)
    (hcls : (classId cls.name, cls.isInterface) ∈ kinds) (hl : Linking kinds h) (ha : h.Assembled)
    (hstep : linkSupertypes o h cls = .ok h') : h'.Assembled := by
  have hids : h.ids.Nodup := by rw [Hierarchy.ids_eq_kinds, hl.kinds_eq]; exact hn
  obtain ⟨_, rfl⟩ := (linkSupertypes_eq_ok_iff hids).mp hstep
  obtain ⟨c, hc, hid, _⟩ := Hierarchy.mem_kinds.mp (hl.kinds_eq ▸ hcls)
  refine ha.relate ((Hierarchy.class?_eq_some hids).mpr ⟨hc, hid⟩) ?_
  exact (congrArg ClassDecl.methods (hl.bare hc) : [] = c.methods)

theorem assembled_addMember [Nesting] (ha : h.Assembled) (hstep : addMember o h cls = .ok h') :
    h'.Assembled := by
  unfold addMember at hstep
  split at hstep
  · exact absurd hstep (by simp [Origin.reject])
  · cases hadd : h.add (classId cls.name) with
    | error fault => rw [hadd] at hstep; exact absurd hstep (by simp [Origin.attempt, Origin.reject])
    | ok k => rw [hadd] at hstep; cases hstep; exact ha.add hadd

theorem assembled_declareMethod [Nesting] {m : Source.Method} (ha : h.Assembled)
    (hstep : declareMethod o cls h m = .ok h') : h'.Assembled := by
  unfold declareMethod at hstep
  dsimp only at hstep
  split at hstep
  · exact absurd hstep (by simp [Origin.reject, bind, Except.bind])
  · unfold Origin.attempt at hstep
    split at hstep
    · cases hstep; exact ha.declareMethod ‹_›
    · exact absurd hstep (by simp [Origin.reject])

theorem assembled_addBody [Nesting] {e : Source.Class × Source.Method} (ha : h.Assembled)
    (hstep : addBody o h e = .ok h') : h'.Assembled := by
  rcases addBody_ok hstep with rfl | ⟨_, b, _, _, rfl⟩
  · exact ha
  · exact ha.setBody b

/-- **A hierarchy that was read from a text was put together by the operations.** -/
theorem assembled_hierarchy [Nesting] (hh : hierarchy o classes = .ok h) : h.Assembled := by
  obtain ⟨h₁, hdeclared, hh⟩ := bind_eq_ok.mp hh
  obtain ⟨h₂, hlinked, hh⟩ := bind_eq_ok.mp hh
  obtain ⟨h₃, hadded, hh⟩ := bind_eq_ok.mp hh
  obtain ⟨h₄, hmethods, hbodies⟩ := bind_eq_ok.mp hh
  obtain ⟨hshells, _, hnodup⟩ := declareClasses_ok hdeclared
  have hlinking : Linking h₁.kinds h₂ ∧ h₂.Assembled := by
    refine foldlM_invariant (P := fun k => Linking h₁.kinds k ∧ Hierarchy.Assembled k) ?_
      ⟨linking_shells hdeclared, assembled_declareClasses hdeclared⟩ hlinked
    rintro k c hc k' ⟨hl, ha⟩ hstep
    have hkind : (classId c.name, c.isInterface) ∈ h₁.kinds :=
      Hierarchy.mem_kinds.mpr ⟨shell c, hshells ▸ List.mem_map_of_mem hc, rfl, rfl⟩
    have hkinds := Hierarchy.ids_eq_kinds h₁ ▸ hnodup
    exact ⟨linking_step hkinds hkind hl hstep, assembled_linkSupertypes hkinds hkind hl ha hstep⟩
  have hmembers : h₃.Assembled :=
    foldlM_invariant (P := Hierarchy.Assembled) (fun _ _ _ _ ha hs => assembled_addMember ha hs)
      hlinking.2 hadded
  have hdecls : h₄.Assembled :=
    foldlM_invariant (P := Hierarchy.Assembled) (fun _ _ _ _ ha hs => assembled_declareMethod ha hs)
      hmembers hmethods
  exact foldlM_invariant (P := Hierarchy.Assembled) (f := addBody o)
    (fun _ _ _ _ ha hs => assembled_addBody ha hs) hdecls hbodies

end Resolve

theorem Program.Parsed.assembled [Nesting] {p : Program} (hp : p.Parsed) : p.hierarchy.Assembled := by
  obtain ⟨o, classes, hres⟩ := hp.exists_classes
  exact Resolve.assembled_hierarchy hres

/-- **Signatures are read back from their written forms.** A subsignature is written unless a type in it is
nested too deep, and what is written is read back in any class unless a type in it is nested too deep for
that. Different subsignatures are written differently. In a hierarchy that was put together by its
operations, as those of programs are, the written signature of a method leads to the method, unless a type
in it is nested too deep to be read or looked up by. -/
theorem MethodId.read_write_and_resolve [Nesting] :
    (∀ (owner : String) (s : Subsignature), IsClassName owner → s.IsNamed →
      (s.write? = none ↔ ∃ t ∈ s.types, Nesting.writable ≤ t.dimensions) ∧
      ∀ S, s.write? = some S → read ("<" ++ owner ++ ": " ++ S ++ ">").toList =
        if s.types.all Ty.isReadable then .ok (owner, s) else .error .tooDeep) ∧
    (∀ s s' : Subsignature, s.IsNamed → s'.IsNamed →
      ∀ S, s.write? = some S → s'.write? = some S → s = s') ∧
    (∀ h : Hierarchy, h.Assembled → ∀ m ∈ h.methods, IsClassName m.id.owner.name → m.id.subsig.IsNamed →
      ∀ S, m.id.write? = some S → h.resolve S =
        if m.id.subsig.types.all Ty.isReadable then
          if m.id.subsig.isShallow then .ok m else .error .tooDeep
        else .error (.malformed .tooDeep)) ∧
    ∀ p : Program, p.Parsed → p.hierarchy.Assembled := by
  refine ⟨fun owner s howner hs => ⟨Subsignature.write?_eq_none, fun S hS => ?_⟩,
    fun s s' hs hs' S hS hS' => ?_, fun h ha m hm howner hs S hS => ?_, fun _ hp => hp.assembled⟩
  · rw [Subsignature.text_of_write? hS]
    exact read_text (m := ⟨⟨owner, 0⟩, s⟩) howner hs
  · exact Subsignature.text_inj hs hs'
      ((Subsignature.text_of_write? hS).symm.trans (Subsignature.text_of_write? hS'))
  · rw [text_of_write? hS]
    exact ha.distinct.resolve_text hm howner hs

/-- A constructor of a nested class, with an array of that class as its parameter. -/
def constructing : MethodId :=
  ⟨⟨"a.B$C", 0⟩, ⟨.primitive .void, "<init>", [.array (.named "a.B$C")]⟩⟩

set_option maxRecDepth 100000 in
/-- Its signature is read back, and leads to it in the program that declares it. -/
theorem MethodId.read_write_and_resolve_constructing :
    constructing.subsig.write? = some "void <init>(a.B$C[])" ∧
      read "<a.B$C: void <init>(a.B$C[])>".toList = .ok ("a.B$C", constructing.subsig) ∧
      ∃ p : Program, p.Parsed ∧ ∃ m ∈ p.hierarchy.methods, m.id = constructing ∧
        p.hierarchy.resolve "<a.B$C: void <init>(a.B$C[])>" = .ok m := by
  have howner : IsClassName constructing.owner.name :=
    ⟨["a", "B$C"], by simp, by decide, by decide⟩
  have hsubsig : constructing.subsig.IsNamed := by
    refine ⟨Or.inr (Or.inl rfl), fun {t} ht => ?_⟩
    rcases List.mem_cons.mp ht with rfl | ht
    · exact trivial
    · rw [List.mem_singleton.mp ht]
      exact ⟨howner, by decide⟩
  have hparse : (Program.ofText "class a.B$C\x7bvoid <init>(a.B$C[]);\x7d".toList none none).toOption.map
      (fun p => p.hierarchy.methods.map (·.id)) = some [constructing] := by
    decide +kernel
  obtain ⟨p, hp, hids⟩ := Option.map_eq_some_iff.mp hparse
  have hparsed : p.Parsed := Program.parsed_of_ofText _ rfl hp
  have hmem : constructing ∈ p.hierarchy.methods.map (·.id) := hids ▸ List.mem_singleton_self _
  obtain ⟨m, hm, hid⟩ := List.mem_map.mp hmem
  obtain ⟨hread, _, hresolve, hassembled⟩ := read_write_and_resolve
  have hwrite : constructing.subsig.write? = some "void <init>(a.B$C[])" := by decide
  refine ⟨hwrite, (hread _ _ howner hsubsig).2 _ hwrite, p, hparsed, m, hm, hid, ?_⟩
  have hlookup := hresolve p.hierarchy (hassembled p hparsed) m hm (hid ▸ howner) (hid ▸ hsubsig)
    "<a.B$C: void <init>(a.B$C[])>" (hid ▸ by decide)
  rw [hlookup, if_pos (hid ▸ by decide), if_pos (hid ▸ by decide)]

/-- A method whose result has some number of dimensions. -/
def nesting (n : Nat) : MethodId :=
  ⟨⟨"M", 0⟩, ⟨.wrap n (.primitive .int), "f", []⟩⟩

theorem isNamed_nesting (n : Nat) :
    IsClassName (nesting n).owner.name ∧ (nesting n).subsig.IsNamed := by
  refine ⟨⟨["M"], by simp, by decide, rfl⟩, Or.inl (by decide : IsIdentifier "f"), fun {t} ht => ?_⟩
  rw [List.mem_singleton.mp ht]
  exact Ty.isNamed_wrap n trivial

theorem write?_nesting [Nesting] {n : Nat} (hn : Nesting.writable ≤ n) :
    (nesting n).subsig.write? = none :=
  Subsignature.write?_eq_none.mpr ⟨.wrap n (.primitive .int), by simp [nesting, Subsignature.types],
    by simpa [Ty.dimensions_wrap, Ty.dimensions] using hn⟩

theorem read_text_nesting [Nesting] {n : Nat} (hn : Nesting.readable < n) :
    MethodId.read (nesting n).text.toList = .error .tooDeep := by
  have hdeep : (Ty.wrap n (.primitive .int)).isReadable = false := by
    rw [Ty.isReadable, Ty.dimensions_wrap, decide_eq_false_iff_not, Ty.dimensions]
    omega
  rw [MethodId.read_text (isNamed_nesting n).1 (isNamed_nesting n).2, if_neg]
  simp [nesting, Subsignature.types, hdeep]

/-- On a stack of a thousand calls, a subsignature with 1200 dimensions is not written, and the text
that shows them all is not read. -/
theorem MethodId.not_write_nesting :
    IsClassName (nesting 1200).owner.name ∧ (nesting 1200).subsig.IsNamed ∧
      (nesting 1200).subsig.write? = none ∧ read (nesting 1200).text.toList = .error .tooDeep :=
  ⟨(isNamed_nesting 1200).1, (isNamed_nesting 1200).2, write?_nesting (by decide),
    read_text_nesting (by decide)⟩

end TacFlow
