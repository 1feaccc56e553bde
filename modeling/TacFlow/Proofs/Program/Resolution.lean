import TacFlow.Proofs.Program.Scope

/-!
# Accepted programs are fully resolved

Nothing in a program that was read from a text refers to what is not there. For the code of a method
that is `Resolves`, for supertypes it is `Hierarchy.Linked`. What is left is to trace every method
of the hierarchy back to the source method that it came from.

Methods are declared first, all of them, and get their code later. A declared method is its
`declaration`, and code goes to the method of a given identity. That it gets there from the very
source method that the declaration came from holds because no two declarations share an identity.
-/

namespace TacFlow

open Relation (TransGen)

namespace Resolve

open Hierarchy (WellFormed)

variable {o : Origin} {h h' k k' : Hierarchy} {cls : Source.Class} {classes : List Source.Class}
  {e : Source.Class × Source.Method}

/-! ## Declarations -/

theorem mem_declaredMethods_update {c : ClassDecl} {x m : Method} (hn : h.ids.Nodup)
    (hc : c ∈ h.declared) :
    m ∈ (h.update { c with methods := c.methods ++ [x] }).declaredMethods ↔
      m ∈ h.declaredMethods ∨ m = x := by
  rw [Hierarchy.mem_declaredMethods, Hierarchy.mem_declaredMethods]
  have hnew : { c with methods := c.methods ++ [x] } ∈
      (h.update { c with methods := c.methods ++ [x] }).declared :=
    List.mem_map.mpr ⟨c, hc, if_pos rfl⟩
  constructor
  · rintro ⟨d, hd, hm⟩
    rcases mem_of_mem_update hd with rfl | hd
    · rcases List.mem_append.mp hm with hm | hm
      · exact Or.inl ⟨c, hc, hm⟩
      · exact Or.inr (List.mem_singleton.mp hm)
    · exact Or.inl ⟨d, hd, hm⟩
  · rintro (⟨d, hd, hm⟩ | rfl)
    · by_cases hid : d.id = c.id
      · have hdc : d = c := List.inj_on_of_nodup_map hn hd hc hid
        exact ⟨_, hnew, List.mem_append_left _ (hdc ▸ hm)⟩
      · exact ⟨d, List.mem_map.mpr ⟨d, hd, if_neg hid⟩, hm⟩
    · exact ⟨_, hnew, by simp⟩

/-- The methods of a hierarchy are the declarations of some source methods, and abstract ones have no
code. -/
structure Declares (done : List (Source.Class × Source.Method)) (h : Hierarchy) : Prop where
  mem_iff {m : Method} : m ∈ h.declaredMethods ↔ ∃ e ∈ done, m = declaration e.1 e.2
  abstract {e : Source.Class × Source.Method} : e ∈ done →
    (declaration e.1 e.2).isAbstract = true → e.2.body = none

theorem declares_step [Nesting] {done : List (Source.Class × Source.Method)} (hn : h.ids.Nodup)
    (hd : Declares done h) (hstep : declareMethod o e.1 h e.2 = .ok h') :
    Declares (done ++ [e]) h' := by
  obtain ⟨habstract, c, hc, _, rfl⟩ := declareMethod_ok hstep
  refine ⟨?_, ?_⟩
  · intro m
    rw [mem_declaredMethods_update hn (Hierarchy.mem_of_class? hc).1, hd.mem_iff]
    simp only [List.mem_append, List.mem_singleton, or_and_right, exists_or, exists_eq_left]
  · intro d hmem
    rcases List.mem_append.mp hmem with hmem | hmem
    · exact hd.abstract hmem
    · rw [List.mem_singleton.mp hmem]
      exact habstract

/-- No two declarations share an identity. -/
theorem declaration_eq (hw : h.WellFormed) {done : List (Source.Class × Source.Method)}
    (hd : Declares done h) {e e' : Source.Class × Source.Method} (he : e ∈ done) (he' : e' ∈ done)
    (hid : (declaration e.1 e.2).id = (declaration e'.1 e'.2).id) :
    declaration e.1 e.2 = declaration e'.1 e'.2 := by
  have hm := hw.method?_eq_some.mpr ⟨hd.mem_iff.mpr ⟨e, he, rfl⟩, hid⟩
  have hm' := hw.method?_eq_some.mpr ⟨hd.mem_iff.mpr ⟨e', he', rfl⟩, rfl⟩
  exact Option.some.inj (hm.symm.trans hm')

/-! ## Code -/

/-- A method is the declaration of a source method, and has the code of that method if it has any. -/
def Stems (o : Origin) (sources : List (Source.Class × Source.Method)) (ids : List ClassId)
    (m : Method) : Prop :=
  ∃ e ∈ sources, { m with body := none } = declaration e.1 e.2 ∧
    ∀ b, m.body = some b → ∃ items k, e.2.body = some items ∧ Hierarchy.ids k = ids ∧
      body o k m.id e.2 items = .ok b

theorem method_body {id : MethodId} {m : Source.Method} {items : List Source.Item} {b : Body}
    (hb : body o h id m items = .ok b) : b.method = id := by
  obtain ⟨_, _, hb⟩ := bind_eq_ok.mp hb
  obtain ⟨_, _, hb⟩ := bind_eq_ok.mp hb
  obtain ⟨_, _, hb⟩ := bind_eq_ok.mp hb
  obtain ⟨_, _, hb⟩ := bind_eq_ok.mp hb
  obtain ⟨_, _, hb⟩ := bind_eq_ok.mp hb
  cases hb
  rfl

/-- A body goes to the method that it is the code of. -/
theorem mem_declaredMethods_setBody {b : Body} {m : Method}
    (hm : m ∈ (setBody h b).declaredMethods) :
    m ∈ h.declaredMethods ∨ ∃ x ∈ h.declaredMethods, x.id = b.method ∧ m = { x with body := some b } := by
  obtain ⟨d, hd, hm⟩ := Hierarchy.mem_declaredMethods.mp hm
  obtain ⟨c, hc, rfl⟩ := List.mem_map.mp hd
  split at hm
  · obtain ⟨x, hx, rfl⟩ := List.mem_map.mp hm
    have hmem : x ∈ h.declaredMethods := Hierarchy.mem_declaredMethods.mpr ⟨c, hc, hx⟩
    split
    · rename_i hid
      exact Or.inr ⟨x, hmem, hid, rfl⟩
    · exact Or.inl hmem
  · exact Or.inl (Hierarchy.mem_declaredMethods.mpr ⟨c, hc, hm⟩)

/-- **Putting in code keeps every method tied to its source.** -/
theorem stems_step {sources : List (Source.Class × Source.Method)} (hw : h.WellFormed)
    (hd : Declares sources h) (he : e ∈ sources)
    (hk : ∀ m ∈ k.declaredMethods, Stems o sources k.ids m) (hstep : addBody o k e = .ok k') :
    ∀ m ∈ k'.declaredMethods, Stems o sources k.ids m := by
  rcases addBody_ok hstep with rfl | ⟨items, b, hitems, hb, rfl⟩
  · exact hk
  intro m hm
  rcases mem_declaredMethods_setBody hm with hm | ⟨x, hx, hid, rfl⟩
  · exact hk m hm
  · rw [method_body hb] at hid
    obtain ⟨e', he', hdeclared, _⟩ := hk x hx
    have hsame : declaration e'.1 e'.2 = declaration e.1 e.2 := by
      refine declaration_eq hw hd he' he ?_
      rw [← hdeclared]
      exact hid
    refine ⟨e, he, hdeclared.trans hsame, ?_⟩
    rintro _ ⟨⟩
    exact ⟨items, k, hitems, rfl, by rw [← hb, hid]⟩

/-- **Every method of a hierarchy that was read stems from a source method.** -/
theorem stems_of_hierarchy [Nesting] (hh : hierarchy o classes = .ok h) :
    ∀ m ∈ h.declaredMethods, Stems o (methodsOf classes) h.ids m ∧
      (m.isAbstract = true → m.body = none) := by
  obtain ⟨h₃, h₄, hlinked₃, hbare, hmethods, hbodies⟩ := exists_stages hh
  -- all methods are declared
  have hdeclares : Fills h₃ h₄ ∧ Declares (methodsOf classes) h₄ := by
    refine foldlM_induction (P := fun done k => Fills h₃ k ∧ Declares done k) ?_ ?_ hmethods
    · rintro done ⟨c, m⟩ k k' _ ⟨hfills, hdeclares⟩ hs
      exact ⟨fills_declareMethod hlinked₃.nodup hfills hs,
        declares_step (hfills.ids_eq ▸ hlinked₃.nodup) hdeclares hs⟩
    · refine ⟨⟨rfl, rfl, owned_of_bare hbare⟩, ?_, fun he => absurd he (by simp)⟩
      intro m
      rw [Hierarchy.mem_declaredMethods]
      constructor
      · rintro ⟨c, hc, hm⟩
        rw [hbare c hc] at hm
        exact absurd hm (by simp)
      · rintro ⟨e, he, _⟩
        exact absurd he (by simp)
  obtain ⟨hfills₄, hdeclares⟩ := hdeclares
  have hw₄ : h₄.WellFormed := ⟨hlinked₃.congr hfills₄.1 hfills₄.2.1, hfills₄.2.2⟩
  -- then the code is put in
  have hstems : Fills h₃ h ∧ ∀ m ∈ h.declaredMethods, Stems o (methodsOf classes) h.ids m := by
    refine foldlM_invariant (P := fun k => Fills h₃ k ∧
      ∀ m ∈ k.declaredMethods, Stems o (methodsOf classes) k.ids m) ?_ ⟨hfills₄, ?_⟩ hbodies
    · rintro k e he k' ⟨hfills, hk⟩ hs
      have hfills' : Fills h₃ k' := by
        rcases addBody_ok hs with rfl | ⟨_, _, _, _, rfl⟩
        · exact hfills
        · exact fills_setBody hfills
      rw [hfills'.ids_eq, ← hfills.ids_eq]
      exact ⟨hfills', stems_step hw₄ hdeclares he hk hs⟩
    · intro m hm
      obtain ⟨e, he, rfl⟩ := hdeclares.mem_iff.mp hm
      exact ⟨e, he, rfl, fun b hb => absurd hb (by simp [declaration])⟩
  intro m hm
  have hstem := hstems.2 m hm
  refine ⟨hstem, fun habstract => ?_⟩
  obtain ⟨e, he, hdeclared, hbody⟩ := hstem
  have hnone : e.2.body = none := by
    refine hdeclares.abstract he ?_
    rw [← hdeclared]
    exact habstract
  cases hb : m.body with
  | none => rfl
  | some b =>
      obtain ⟨items, _, hitems, _⟩ := hbody b hb
      rw [hnone] at hitems
      exact absurd hitems (by simp)

/-- Of the hierarchy, a resolved body knows only which classes there are. -/
theorem Resolves.congr {m : Source.Method} {items : List Source.Item} {b : Body}
    (hb : Resolves k m items b) (hids : k.ids = h.ids) : Resolves h m items b where
  stmts := hb.stmts
  vars := hb.vars
  names := hb.names
  front := hb.front
  params := hb.params
  calls hs hc := by
    obtain ⟨howner, hargs, hreceiver⟩ := hb.calls hs hc
    exact ⟨hids ▸ howner, hargs, hreceiver⟩

end Resolve

/-- A program in which every name of its source refers to something. -/
structure Program.Resolved (p : Program) (classes : List Source.Class) : Prop where
  /-- Every class is a member of the hierarchy. -/
  members : p.hierarchy.members = p.hierarchy.ids
  /-- Each superclass is a class of the hierarchy. -/
  super {c : ClassDecl} {a : ClassId} : c ∈ p.hierarchy.declared → c.super = some a →
    ∃ d ∈ p.hierarchy.declared, d.id = a ∧ d.isInterface = false
  /-- Each superinterface is an interface of the hierarchy. -/
  interfaces {c : ClassDecl} {a : ClassId} : c ∈ p.hierarchy.declared → a ∈ c.interfaces →
    ∃ d ∈ p.hierarchy.declared, d.id = a ∧ d.isInterface = true
  /-- No class is among its own supertypes. -/
  acyclic (a : ClassId) : ¬ TransGen p.hierarchy.HasParent a a
  /-- Abstract methods have no body. -/
  abstract {m : Method} : m ∈ p.hierarchy.declaredMethods → m.isAbstract = true → m.body = none
  /-- A body belongs to its method and is the code of a source method, with all names resolved. Its
  returned variables are those that some statement returns, each once. -/
  code {m : Method} {b : Body} : m ∈ p.hierarchy.declaredMethods → m.body = some b →
    b.method = m.id ∧
      (∃ c ∈ classes, ∃ src ∈ c.methods, ∃ items, src.body = some items ∧
        m.id = ⟨Resolve.classId c.name, src.subsig⟩ ∧ Resolve.Resolves p.hierarchy src items b) ∧
      b.returnVars.Nodup ∧ ∀ x, x ∈ b.returnVars ↔ .ret (some (.var x)) ∈ b.stmts

theorem Program.resolved_of_parse [Nesting] {text : List Char} {source : Option String} {p : Program}
    {classes : List Source.Class} (hparse : Grammar.parse text = .ok classes)
    (hres : Resolve.hierarchy ⟨text, source⟩ classes = .ok p.hierarchy) : p.Resolved classes := by
  have hw := Resolve.wellFormed_classes hres
  refine ⟨hw.members, ?_, ?_, hw.acyclic, ?_, ?_⟩
  · intro c a hc ha
    exact Hierarchy.mem_kinds.mp (hw.super hc ha).2
  · intro c a hc ha
    exact Hierarchy.mem_kinds.mp (hw.interfaces hc ha)
  · intro m hm
    exact (Resolve.stems_of_hierarchy hres m hm).2
  · intro m b hm hb
    obtain ⟨⟨c, src⟩, hsource, hdeclared, hcode⟩ := (Resolve.stems_of_hierarchy hres m hm).1
    obtain ⟨items, k, hitems, hids, hbody⟩ := hcode b hb
    obtain ⟨c', hc', hsrc⟩ := List.mem_flatMap.mp hsource
    obtain ⟨src', hsrc', heq⟩ := List.mem_map.mp hsrc
    obtain ⟨rfl, rfl⟩ := Prod.mk.inj heq
    have hreceived := Grammar.received_of_parse hparse c' hc' src' hsrc' items hitems
    have hid : ({ m with body := none } : Method).id = _ := congrArg Method.id hdeclared
    refine ⟨Resolve.method_body hbody, ?_, b.returnVars_ok⟩
    exact ⟨c', hc', src', hsrc', items, hitems, hid, (Resolve.resolves_body hreceived hbody).congr hids⟩

/-- **An accepted program is fully resolved.** -/
theorem Program.resolved_of_ofText [Nesting] {text : List Char} {source : Option String} {p : Program}
    (h : Program.ofText text none source = .ok p) :
    ∃ classes, Grammar.parse text = .ok classes ∧ p.Resolved classes := by
  obtain ⟨classes, hparse, hres⟩ := Program.exists_parse_of_ofText h
  exact ⟨classes, hparse, Program.resolved_of_parse hparse hres⟩

/-- The code of a method in a program that was read is resolved. -/
theorem Program.Parsed.resolves [Nesting] {p : Program} (hp : p.Parsed) {id : MethodId} {b : Body}
    (hb : p.hierarchy.body? id = some b) :
    ∃ src items, src.subsig = id.subsig ∧ Resolve.Resolves p.hierarchy src items b := by
  have hw := hp.classes_wellFormed
  obtain ⟨text, main, source, hp⟩ := hp
  obtain ⟨classes, hparse, hres⟩ := Program.exists_parse_of_ofText hp
  obtain ⟨m, hm, hcode⟩ := Option.bind_eq_some_iff.mp hb
  obtain ⟨hmem, rfl⟩ := hw.method?_eq_some.mp hm
  obtain ⟨_, ⟨c, _, src, _, items, _, hid, hresolves⟩, _⟩ :=
    (Program.resolved_of_parse hparse hres).code hmem hcode
  exact ⟨src, items, congrArg MethodId.subsig hid.symm, hresolves⟩

/-- A program with an interface, a switch that may jump back, and a call with a receiver. -/
def switching : List Char :=
  ("interface I\x7bint f(int a);\x7dclass A implements I\x7bint f(int b)\x7bint c;A x;" ++
    "L:switch(b)\x7bcase 1:goto L;default:goto E;\x7dE:x=new A;" ++
    "c=invokeinterface x.<I: int f(int)>(b);return c;\x7d\x7d").toList

set_option maxRecDepth 100000 in
theorem Program.resolved_of_ofText_switching :
    ∃ p classes, Program.ofText switching none none = .ok p ∧
      Grammar.parse switching = .ok classes ∧ p.Resolved classes := by
  obtain ⟨text, htext, hread⟩ : ∃ text, switching = text ∧
      (Program.ofText text none none).toOption.isSome = true :=
    ⟨_, toList_append_of_eq (toList_append_of_eq String.toList_ofList String.toList_ofList)
      String.toList_ofList, by decide +kernel⟩
  rw [← htext] at hread
  obtain ⟨p, hp⟩ := Option.isSome_iff_exists.mp hread
  have hp := Resolve.eq_ok_of_toOption hp
  obtain ⟨classes, hparse, hresolved⟩ := Program.resolved_of_ofText hp
  exact ⟨p, classes, hp, hparse, hresolved⟩

end TacFlow
