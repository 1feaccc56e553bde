import Mathlib.Data.List.Nodup
import TacFlow.Proofs.Program.Parsed
import TacFlow.Proofs.Search

/-!
# The classes of a program

What is known of the classes of a program because it was read from a text. Their names are
different, all of them are members of the hierarchy, a superclass is a class and a superinterface an
interface, no class is among its own supertypes, and a method stands in the class that owns it, once.

Name resolution establishes this in stages. Declaring the classes fixes their names and kinds, and
linking fixes their supertypes. The stages behind that see the linked classes as they are: they make
them members, and add methods and bodies. The `outline` of a hierarchy is what they leave alone, so
all that is said of supertypes is carried over from one outline to an equal one.
-/

namespace TacFlow

open Relation (ReflTransGen TransGen)

/-- A class without its methods. -/
def ClassDecl.outline (c : ClassDecl) : ClassDecl :=
  { c with methods := [] }

namespace Hierarchy

variable {h h' : Hierarchy} {c d : ClassDecl} {a b : ClassId} {m : Method}

/-- A class names another one as its superclass or as a superinterface. -/
def HasParent (h : Hierarchy) (a b : ClassId) : Prop :=
  b ∈ h.parents a

/-- The classes without their methods. -/
def outline (h : Hierarchy) : List ClassDecl :=
  h.declared.map ClassDecl.outline

/-- The names of the classes, with their kinds. -/
def kinds (h : Hierarchy) : List (ClassId × Bool) :=
  h.declared.map fun c => (c.id, c.isInterface)

/-- The supertypes of the classes are as they have to be. -/
structure Linked (h : Hierarchy) : Prop where
  /-- No two classes have the same name. -/
  nodup : h.ids.Nodup
  /-- Every class is a member. -/
  members : h.members = h.ids
  /-- A superclass is a class, and it is the superclass of a class. -/
  super {c : ClassDecl} {a : ClassId} : c ∈ h.declared → c.super = some a →
    c.isInterface = false ∧ (a, false) ∈ h.kinds
  /-- A superinterface is an interface. -/
  interfaces {c : ClassDecl} {a : ClassId} : c ∈ h.declared → a ∈ c.interfaces → (a, true) ∈ h.kinds
  /-- No class is among its own supertypes. -/
  acyclic (a : ClassId) : ¬ TransGen h.HasParent a a

/-- The methods stand where they belong. -/
structure Owned (h : Hierarchy) : Prop where
  /-- A method stands in the class that owns it. -/
  owner {c : ClassDecl} {m : Method} : c ∈ h.declared → m ∈ c.methods → m.id.owner = c.id
  /-- A class declares a method once. -/
  nodup {c : ClassDecl} : c ∈ h.declared → (c.methods.map (·.id)).Nodup

/-- What every hierarchy is like that was read from a text. -/
structure WellFormed (h : Hierarchy) : Prop extends h.Linked where
  /-- The methods stand where they belong. -/
  owned : h.Owned

/-! ## Looking up -/

theorem mem_kinds {i : Bool} : (a, i) ∈ h.kinds ↔ ∃ c ∈ h.declared, c.id = a ∧ c.isInterface = i := by
  simp [kinds]

theorem mem_ids : a ∈ h.ids ↔ ∃ c ∈ h.declared, c.id = a := by
  simp [ids]

theorem mem_of_class? (hc : h.class? a = some c) : c ∈ h.declared ∧ c.id = a :=
  ⟨List.mem_of_find?_eq_some hc, by simpa using List.find?_some hc⟩

/-- Classes are told apart by their names. -/
theorem class?_eq_some (hn : h.ids.Nodup) : h.class? a = some c ↔ c ∈ h.declared ∧ c.id = a := by
  refine ⟨mem_of_class?, ?_⟩
  rintro ⟨hc, rfl⟩
  have hfound : (h.class? c.id).isSome := List.find?_isSome.mpr ⟨c, hc, by simp⟩
  obtain ⟨d, hd⟩ := Option.isSome_iff_exists.mp hfound
  obtain ⟨hmem, hid⟩ := mem_of_class? hd
  rw [hd, List.inj_on_of_nodup_map hn hmem hc hid]

theorem isInterface_eq (hn : h.ids.Nodup) {i : Bool} (ha : (a, i) ∈ h.kinds) :
    h.isInterface a = i := by
  obtain ⟨c, hc, hid, hi⟩ := mem_kinds.mp ha
  have hfound := (class?_eq_some hn).mpr ⟨hc, hid⟩
  rw [isInterface, hfound, Option.map_some, Option.getD_some, hi]

theorem mem_parents (hn : h.ids.Nodup) :
    b ∈ h.parents a ↔ ∃ c ∈ h.declared, c.id = a ∧ (b ∈ c.interfaces ∨ c.super = some b) := by
  unfold parents
  constructor
  · intro hb
    cases hc : h.class? a with
    | none => rw [hc] at hb; exact absurd hb (by simp)
    | some c =>
        obtain ⟨hmem, hid⟩ := mem_of_class? hc
        rw [hc] at hb
        exact ⟨c, hmem, hid, by simpa [ClassDecl.parents] using hb⟩
  · rintro ⟨c, hmem, hid, hb⟩
    rw [(class?_eq_some hn).mpr ⟨hmem, hid⟩]
    simpa [ClassDecl.parents] using hb

/-- Only declared classes have supertypes. -/
theorem mem_ids_of_parents (ha : h.parents a ≠ []) : a ∈ h.ids := by
  unfold parents at ha
  cases hc : h.class? a with
  | none => rw [hc] at ha; exact absurd rfl ha
  | some c =>
      obtain ⟨hmem, hid⟩ := mem_of_class? hc
      exact mem_ids.mpr ⟨c, hmem, hid⟩

/-- The method of an identity is declared. -/
theorem mem_of_method? {id : MethodId} (hm : h.method? id = some m) :
    ∃ c ∈ h.declared, c.id = id.owner ∧ m ∈ c.methods ∧ m.id.subsig = id.subsig := by
  obtain ⟨c, hc, hm⟩ := Option.bind_eq_some_iff.mp hm
  obtain ⟨hmem, hid⟩ := mem_of_class? hc
  exact ⟨c, hmem, hid, List.mem_of_find?_eq_some hm, by simpa using List.find?_some hm⟩

theorem mem_declaredMethods : m ∈ h.declaredMethods ↔ ∃ c ∈ h.declared, m ∈ c.methods := by
  simp [declaredMethods]

theorem mem_declaredMethods_of_method? {id : MethodId} (hm : h.method? id = some m) :
    m ∈ h.declaredMethods := by
  obtain ⟨c, hc, _, hmem, _⟩ := mem_of_method? hm
  exact mem_declaredMethods.mpr ⟨c, hc, hmem⟩

/-- A method of a class is found by its subsignature. -/
theorem Owned.method?_eq_some (ho : h.Owned) (hc : c ∈ h.declared) (hm : m ∈ c.methods) :
    c.method? m.id.subsig = some m := by
  have hfound : (c.method? m.id.subsig).isSome := List.find?_isSome.mpr ⟨m, hm, by simp⟩
  obtain ⟨k, hk⟩ := Option.isSome_iff_exists.mp hfound
  have hkmem : k ∈ c.methods := List.mem_of_find?_eq_some hk
  have hsubsig : k.id.subsig = m.id.subsig := by simpa using List.find?_some hk
  have hid : k.id = m.id := by
    have howner := (ho.owner hc hkmem).trans (ho.owner hc hm).symm
    cases hk' : k.id
    cases hm' : m.id
    simp_all
  rw [hk, List.inj_on_of_nodup_map (ho.nodup hc) hkmem hm hid]

/-- **Methods are told apart by their identities.** -/
theorem WellFormed.method?_eq_some (hw : h.WellFormed) {id : MethodId} :
    h.method? id = some m ↔ m ∈ h.declaredMethods ∧ m.id = id := by
  constructor
  · intro hm
    obtain ⟨c, hc, howner, hmem, hsubsig⟩ := mem_of_method? hm
    have hid : m.id.owner = id.owner := (hw.owned.owner hc hmem).trans howner
    refine ⟨mem_declaredMethods.mpr ⟨c, hc, hmem⟩, ?_⟩
    cases hm' : m.id
    cases id
    simp_all
  · rintro ⟨hm, rfl⟩
    obtain ⟨c, hc, hmem⟩ := mem_declaredMethods.mp hm
    have hclass := (class?_eq_some hw.nodup).mpr ⟨hc, (hw.owned.owner hc hmem).symm⟩
    unfold method?
    rw [hclass, Option.bind_some, hw.owned.method?_eq_some hc hmem]

/-! ## Equal outlines -/

theorem kinds_eq_outline (h : Hierarchy) :
    h.kinds = h.outline.map fun c => (c.id, c.isInterface) := by
  simp [kinds, outline, ClassDecl.outline]

theorem ids_eq_kinds (h : Hierarchy) : h.ids = h.kinds.map (·.1) := by
  simp [ids, kinds]

theorem find?_outline (h : Hierarchy) (a : ClassId) :
    h.outline.find? (·.id == a) = (h.class? a).map ClassDecl.outline :=
  List.find?_map

theorem parents_eq_outline (h : Hierarchy) (a : ClassId) :
    h.parents a = ((h.outline.find? (·.id == a)).map ClassDecl.parents).getD [] := by
  rw [find?_outline, Option.map_map]
  rfl

/-- **What is said of supertypes depends on the outline and the members only.** -/
theorem Linked.congr (hl : h.Linked) (ho : h'.outline = h.outline) (hm : h'.members = h.members) :
    h'.Linked := by
  have hkinds : h'.kinds = h.kinds := by rw [kinds_eq_outline, kinds_eq_outline, ho]
  have hids : h'.ids = h.ids := by rw [ids_eq_kinds, ids_eq_kinds, hkinds]
  -- every class has a counterpart with the same supertypes
  have hsame : ∀ c ∈ h'.declared, ∃ d ∈ h.declared, d.outline = c.outline := by
    intro c hc
    have hmem : c.outline ∈ h'.outline := List.mem_map_of_mem hc
    rw [ho] at hmem
    exact List.mem_map.mp hmem
  refine ⟨hids ▸ hl.nodup, ?_, ?_, ?_, ?_⟩
  · rw [hm, hids, hl.members]
  · intro c a hc ha
    obtain ⟨d, hd, hq⟩ := hsame c hc
    have hsuper : d.outline.super = c.outline.super := congrArg ClassDecl.super hq
    have hkind : d.outline.isInterface = c.outline.isInterface := congrArg ClassDecl.isInterface hq
    change d.isInterface = c.isInterface at hkind
    rw [hkinds, ← hkind]
    exact hl.super hd (hsuper.trans ha)
  · intro c a hc ha
    obtain ⟨d, hd, hq⟩ := hsame c hc
    have hinterfaces : d.outline.interfaces = c.outline.interfaces :=
      congrArg ClassDecl.interfaces hq
    change d.interfaces = c.interfaces at hinterfaces
    rw [hkinds]
    exact hl.interfaces hd (hinterfaces ▸ ha)
  · have hparents : h'.HasParent = h.HasParent := by
      funext a b
      rw [HasParent, HasParent, parents_eq_outline, parents_eq_outline, ho]
    rw [hparents]
    exact hl.acyclic

/-- Replacing a class by one of the same name that agrees with it in some respect leaves the list of
all classes in this respect as it is. -/
theorem map_update {β : Type} {f : ClassDecl → β} (hn : h.ids.Nodup) (hc : c ∈ h.declared)
    (hid : d.id = c.id) (hf : f d = f c) : (h.update d).declared.map f = h.declared.map f := by
  unfold update
  rw [List.map_map]
  refine List.map_congr_left ?_
  intro e he
  by_cases hq : e.id = d.id
  · have hec : e = c := List.inj_on_of_nodup_map hn he hc (hq.trans hid)
    simp only [Function.comp_apply, if_pos hq]
    rw [hf, hec]
  · simp only [Function.comp_apply, if_neg hq]

/-! ## Acyclic hierarchies -/

/-- A search for cycles comes to its end, whatever the classes name as their supertypes. -/
theorem finds_supertypes (h : Hierarchy) (a : ClassId) :
    Search.Finds h.parents (h.parents a) [] (Search.reach h.ids h.parents (h.parents a)) :=
  Search.finds_reach fun _ _ _ _ hx => mem_ids_of_parents hx

/-- **It finds a class exactly if the class is among its own supertypes.** -/
theorem isCyclic_iff : h.isCyclic a = true ↔ TransGen h.HasParent a a := by
  rw [isCyclic, decide_eq_true_eq, (finds_supertypes h a).mem_iff, TransGen.head'_iff]
  rfl

theorem acyclic_of_not_isCyclic (hc : ∀ a ∈ h.ids, h.isCyclic a = false) (a : ClassId) :
    ¬ TransGen h.HasParent a a := by
  intro hcycle
  obtain ⟨b, hb, _⟩ := TransGen.head'_iff.mp hcycle
  have ha : a ∈ h.ids := mem_ids_of_parents (List.ne_nil_of_mem hb)
  have hcyclic := isCyclic_iff.mpr hcycle
  rw [hc a ha] at hcyclic
  exact absurd hcyclic (by simp)

end Hierarchy

namespace Resolve

open Hierarchy (WellFormed Linked Owned)

variable {o : Origin} {h h' : Hierarchy} {cls : Source.Class} {classes : List Source.Class}

/-! ## Stages of name resolution -/

section

variable {ε α β : Type}

/-- What holds of nothing at the start, and is kept as one element after the other is taken in, holds
of all at the end. -/
theorem foldlM_induction {P : List α → β → Prop} {f : β → α → Except ε β} {as : List α}
    (hstep : ∀ done a b b', a ∈ as → P done b → f b a = .ok b' → P (done ++ [a]) b') {b b' : β}
    (hb : P [] b) (h : as.foldlM f b = .ok b') : P as b' := by
  have key : ∀ (rest done : List α) (b : β), (∀ a ∈ rest, a ∈ as) → P done b →
      rest.foldlM f b = .ok b' → P (done ++ rest) b' := by
    intro rest
    induction rest with
    | nil =>
        intro done b _ hb h
        cases h
        rwa [List.append_nil]
    | cons a rest ih =>
        intro done b hrest hb h
        rw [List.foldlM_cons] at h
        obtain ⟨c, hc, h⟩ := bind_eq_ok.mp h
        have hnext := ih (done ++ [a]) c (fun x hx => hrest x (List.mem_cons_of_mem a hx))
          (hstep done a b c (hrest a (by simp)) hb hc) h
        rwa [List.append_assoc] at hnext
  exact key as [] b (fun _ ha => ha) hb h

/-- A loop that goes on only where something holds has come to its end only if it holds of all. -/
theorem forall_of_forIn_ok {as : List α} {P : α → Prop}
    {f : α → PUnit.{1} → Except ε (ForInStep PUnit.{1})}
    (hf : ∀ a s, f a PUnit.unit = .ok s → s = .yield PUnit.unit ∧ P a) {u : PUnit}
    (h : forIn as PUnit.unit f = .ok u) : ∀ a ∈ as, P a := by
  induction as with
  | nil => exact fun a ha => absurd ha (by simp)
  | cons a as ih =>
      rw [List.forIn_cons] at h
      obtain ⟨s, hs, h⟩ := bind_eq_ok.mp h
      obtain ⟨rfl, ha⟩ := hf a s hs
      intro b hb
      rcases List.mem_cons.mp hb with rfl | hb
      · exact ha
      · exact ih h b hb

/-- It comes to its end if it holds of all. -/
theorem forIn_ok {as : List α} {f : α → PUnit.{1} → Except ε (ForInStep PUnit.{1})}
    (hf : ∀ a ∈ as, f a PUnit.unit = .ok (.yield PUnit.unit)) :
    forIn as PUnit.unit f = .ok PUnit.unit := by
  induction as with
  | nil => rfl
  | cons a as ih =>
      rw [List.forIn_cons, hf a List.mem_cons_self]
      exact ih fun b hb => hf b (List.mem_cons_of_mem a hb)

end

/-- Declaring the classes gives them different names and nothing else. -/
theorem declareClasses_ok (hh : declareClasses o classes = .ok h) :
    h.declared = classes.map shell ∧ h.members = [] ∧ h.ids.Nodup := by
  refine foldlM_induction
    (P := fun done h => h.declared = done.map shell ∧ h.members = [] ∧ h.ids.Nodup) ?_ ?_ hh
  · rintro done c h h' _ ⟨hdeclared, hmembers, hnodup⟩ hstep
    split at hstep
    · exact absurd hstep (by simp [Origin.reject])
    · rename_i hnew
      cases hstep
      refine ⟨by simp [Hierarchy.declare, hdeclared], hmembers, ?_⟩
      have hfresh : classId c.name ∉ h.ids := by
        intro hmem
        obtain ⟨d, hd, hid⟩ := Hierarchy.mem_ids.mp hmem
        exact hnew (List.find?_isSome.mpr ⟨d, hd, by simp [hid]⟩)
      have hids : (h.declare (shell c)).ids = h.ids ++ [classId c.name] := by
        simp [Hierarchy.ids, Hierarchy.declare, shell]
      rw [hids, List.nodup_append]
      refine ⟨hnodup, by simp, ?_⟩
      intro x hx y hy hxy
      rw [List.mem_singleton.mp hy] at hxy
      exact hfresh (hxy ▸ hx)
  · exact ⟨rfl, rfl, by simp [Hierarchy.ids, Hierarchy.empty]⟩

theorem mem_kinds_of_lookup {pos : Nat} {name : String} {d : ClassDecl}
    (hd : lookup o h pos name = .ok d) : (d.id, d.isInterface) ∈ h.kinds := by
  unfold lookup at hd
  split at hd
  · rename_i hc
    cases hd
    exact Hierarchy.mem_kinds.mpr ⟨d, (Hierarchy.mem_of_class? hc).1, rfl, rfl⟩
  · exact absurd hd (by simp [Origin.reject])

theorem lookup_ok (hn : h.ids.Nodup) {pos : Nat} {name : String} {kind : Bool}
    (hname : (classId name, kind) ∈ h.kinds) :
    ∃ d, lookup o h pos name = .ok d ∧ d.id = classId name ∧ d.isInterface = kind := by
  obtain ⟨d, hd, hid, hkind⟩ := Hierarchy.mem_kinds.mp hname
  refine ⟨d, ?_, hid, hkind⟩
  rw [lookup, (Hierarchy.class?_eq_some hn).mpr ⟨hd, hid⟩]

/-- What is looked up has the names that it is looked up by. -/
theorem ids_of_mapM_lookup {pos : Nat} {names : List String} {ds : List ClassDecl}
    (hds : names.mapM (lookup o h pos) = .ok ds) :
    ds.map (·.id) = names.map classId ∧ ∀ d ∈ ds, (d.id, d.isInterface) ∈ h.kinds := by
  constructor
  · have hall := forall₂_of_mapM hds
    clear hds
    induction hall with
    | nil => rfl
    | @cons name d _ _ hd _ ih =>
        have hid : d.id = classId name := by
          unfold lookup at hd
          split at hd
          · rename_i hc
            cases hd
            exact (Hierarchy.mem_of_class? hc).2
          · exact absurd hd (by simp [Origin.reject])
        rw [List.map_cons, List.map_cons, hid, ih]
  · intro d hd
    obtain ⟨name, _, hq⟩ := exists_of_mem_mapM hds hd
    exact mem_kinds_of_lookup hq

/-- Names of declared classes of one kind are looked up. -/
theorem mapM_lookup_ok (o : Origin) (pos : Nat) (hn : h.ids.Nodup) {kind : Bool} {names : List String}
    (hnames : ∀ name ∈ names, (classId name, kind) ∈ h.kinds) :
    ∃ ds, names.mapM (lookup o h pos) = .ok ds ∧ ∀ d ∈ ds, d.isInterface = kind := by
  induction names with
  | nil => exact ⟨[], rfl, by simp⟩
  | cons name names ih =>
      obtain ⟨ds, hds, hkind⟩ := ih fun n hn => hnames n (List.mem_cons_of_mem name hn)
      obtain ⟨d, hd, _, hdkind⟩ := lookup_ok (o := o) hn (hnames name List.mem_cons_self)
      refine ⟨d :: ds, by rw [List.mapM_cons, hd, hds]; rfl, ?_⟩
      intro e he
      rcases List.mem_cons.mp he with rfl | he
      · exact hdkind
      · exact hkind e he

/-- The supertypes that a class names are declared and of the right kind. -/
structure Suits (kinds : List (ClassId × Bool)) (c : Source.Class) : Prop where
  /-- A class extends one class at most. -/
  single : c.isInterface = false → c.extended.length ≤ 1
  /-- A class extends classes, and an interface extends interfaces. -/
  extended {name : String} : name ∈ c.extended → (classId name, c.isInterface) ∈ kinds
  /-- Only a class implements, and it implements interfaces. -/
  implemented {name : String} : name ∈ c.implemented →
    c.isInterface = false ∧ (classId name, true) ∈ kinds

/-- The declaration of a class with the supertypes that it names. -/
def linked (c : Source.Class) : ClassDecl :=
  { shell c with
    super := ((if c.isInterface then [] else c.extended).head?).map classId
    interfaces := (if c.isInterface then c.extended else c.implemented).map classId }

/-- With its supertypes looked up, a class is linked to them, or one of them is refused. -/
theorem linkSupertypes_eq_ok {extended implemented : List ClassDecl}
    (hextended : cls.extended.mapM (lookup o h cls.pos) = .ok extended)
    (himplemented : cls.implemented.mapM (lookup o h cls.pos) = .ok implemented) :
    linkSupertypes o h cls = .ok h' ↔
      (cls.isInterface = true → implemented = []) ∧
      (if cls.isInterface = true then [] else extended).length ≤ 1 ∧
      (∀ d ∈ if cls.isInterface = true then [] else extended, d.isInterface = false) ∧
      (∀ d ∈ if cls.isInterface = true then extended else implemented, d.isInterface = true) ∧
      h' = h.update (linked cls) := by
  obtain ⟨hextendedIds, _⟩ := ids_of_mapM_lookup hextended
  obtain ⟨himplementedIds, _⟩ := ids_of_mapM_lookup himplemented
  have hsuperIds : (if cls.isInterface = true then [] else extended).map (·.id) =
      (if cls.isInterface = true then [] else cls.extended).map classId := by
    split
    · rfl
    · exact hextendedIds
  have hinterfaceIds : (if cls.isInterface = true then extended else implemented).map (·.id) =
      (if cls.isInterface = true then cls.extended else cls.implemented).map classId := by
    split
    · exact hextendedIds
    · exact himplementedIds
  have hlinked : { shell cls with
      super := (if cls.isInterface = true then [] else extended).head?.map (·.id)
      interfaces := (if cls.isInterface = true then extended else implemented).map (·.id) } =
        linked cls := by
    rw [linked, ← List.head?_map, hsuperIds, List.head?_map, hinterfaceIds]
  constructor
  · intro hstep
    unfold linkSupertypes at hstep
    rw [hextended] at hstep
    obtain ⟨_, hq, hstep⟩ := bind_eq_ok.mp hstep
    cases hq
    rw [himplemented] at hstep
    obtain ⟨_, hq, hstep⟩ := bind_eq_ok.mp hstep
    cases hq
    dsimp only at hstep
    split at hstep
    · exact absurd hstep (by simp [Origin.reject, bind, Except.bind])
    rename_i hnone
    generalize (if cls.isInterface = true then [] else extended) = supers at hstep hlinked ⊢
    generalize (if cls.isInterface = true then extended else implemented) = interfaces
      at hstep hlinked ⊢
    split at hstep
    · exact absurd hstep (by simp [Origin.reject, bind, Except.bind])
    rename_i hfew
    -- each loop refuses the supertypes of the wrong kind
    obtain ⟨_, hloop, hstep⟩ := bind_eq_ok.mp hstep
    obtain ⟨_, hloop', hstep⟩ := bind_eq_ok.mp hstep
    cases hstep
    refine ⟨fun hi => by simpa [hi] using hnone, Nat.not_lt.mp hfew, ?_, ?_, ?_⟩
    · refine forall_of_forIn_ok ?_ hloop
      intro d s hs
      split at hs
      · exact absurd hs (by simp [Origin.reject, bind, Except.bind])
      · rename_i hi
        cases hs
        exact ⟨rfl, by simpa using hi⟩
    · refine forall_of_forIn_ok ?_ hloop'
      intro d s hs
      split at hs
      · exact absurd hs (by simp [Origin.reject, bind, Except.bind])
      · rename_i hi
        cases hs
        exact ⟨rfl, by simpa using hi⟩
    · exact congrArg h.update hlinked
  · rintro ⟨hnone, hfew, hsupers, hinterfaces, rfl⟩
    unfold linkSupertypes
    refine bind_eq_ok.mpr ⟨extended, hextended, bind_eq_ok.mpr ⟨implemented, himplemented, ?_⟩⟩
    dsimp only
    rw [if_neg ?_, if_neg (Nat.not_lt.mpr hfew)]
    · -- both loops pass over all supertypes
      refine bind_eq_ok.mpr ⟨PUnit.unit, forIn_ok ?_, bind_eq_ok.mpr ⟨PUnit.unit, forIn_ok ?_, ?_⟩⟩
      · intro d hd
        rw [if_neg (by simp [hsupers d hd])]
        rfl
      · intro d hd
        rw [if_neg (by simp [hinterfaces d hd])]
        rfl
      · exact congrArg (fun d => Except.ok (h.update d)) hlinked
    · cases hi : cls.isInterface with
      | true => simp [hnone hi]
      | false => simp

/-- **A class is linked exactly if its supertypes suit it**, and then to those that it names. -/
theorem linkSupertypes_eq_ok_iff (hn : h.ids.Nodup) :
    linkSupertypes o h cls = .ok h' ↔ Suits h.kinds cls ∧ h' = h.update (linked cls) := by
  constructor
  · intro hstep
    obtain ⟨extended, hextended, _⟩ := bind_eq_ok.mp hstep
    obtain ⟨implemented, himplemented, _⟩ := bind_eq_ok.mp ‹_›
    obtain ⟨hextendedIds, hextendedKinds⟩ := ids_of_mapM_lookup hextended
    obtain ⟨himplementedIds, himplementedKinds⟩ := ids_of_mapM_lookup himplemented
    obtain ⟨hnone, hfew, hsupers, hinterfaces, hq⟩ :=
      (linkSupertypes_eq_ok hextended himplemented).mp hstep
    refine ⟨⟨?_, ?_, ?_⟩, hq⟩
    · intro hi
      rw [if_neg (by simp [hi])] at hfew
      have hlength := congrArg List.length hextendedIds
      rw [List.length_map, List.length_map] at hlength
      exact hlength ▸ hfew
    · intro name hname
      have hmem : classId name ∈ extended.map (·.id) := hextendedIds ▸ List.mem_map_of_mem hname
      obtain ⟨d, hd, hid⟩ := List.mem_map.mp hmem
      have hkind : d.isInterface = cls.isInterface := by
        cases hi : cls.isInterface with
        | true => exact hinterfaces d (by simpa [hi] using hd)
        | false => exact hsupers d (by simpa [hi] using hd)
      rw [← hid, ← hkind]
      exact hextendedKinds d hd
    · intro name hname
      have hmem : classId name ∈ implemented.map (·.id) := himplementedIds ▸ List.mem_map_of_mem hname
      obtain ⟨d, hd, hid⟩ := List.mem_map.mp hmem
      have hi : cls.isInterface = false := by
        refine Bool.eq_false_iff.mpr fun hi => ?_
        rw [hnone hi] at hd
        exact absurd hd (by simp)
      have hkind := hinterfaces d (by simpa [hi] using hd)
      refine ⟨hi, ?_⟩
      rw [← hid, ← hkind]
      exact himplementedKinds d hd
  · rintro ⟨hs, hq⟩
    obtain ⟨extended, hextended, hextendedKind⟩ :=
      mapM_lookup_ok o cls.pos hn fun _ hname => hs.extended hname
    obtain ⟨implemented, himplemented, himplementedKind⟩ :=
      mapM_lookup_ok o cls.pos hn fun _ hname => (hs.implemented hname).2
    refine (linkSupertypes_eq_ok hextended himplemented).mpr ⟨?_, ?_, ?_, ?_, hq⟩
    · -- an interface implements nothing
      intro hi
      have hnames : cls.implemented = [] := List.eq_nil_iff_forall_not_mem.mpr fun name hname => by
        simpa [hi] using (hs.implemented hname).1
      rw [hnames] at himplemented
      cases himplemented
      rfl
    · split
      · simp
      · rename_i hi
        have hlength := congrArg List.length (ids_of_mapM_lookup hextended).1
        rw [List.length_map, List.length_map] at hlength
        exact hlength ▸ hs.single (by simpa using hi)
    · intro d hd
      split at hd
      · exact absurd hd (by simp)
      · rename_i hi
        exact (hextendedKind d hd).trans (by simpa using hi)
    · intro d hd
      split at hd
      · rename_i hi
        exact (hextendedKind d hd).trans hi
      · exact himplementedKind d hd

/-- A class has a superclass only if it is one, its superclass is a class, and its superinterfaces
are interfaces. -/
structure SuitablyLinked (kinds : List (ClassId × Bool)) (c : ClassDecl) : Prop where
  super {a : ClassId} : c.super = some a → c.isInterface = false ∧ (a, false) ∈ kinds
  interfaces {a : ClassId} : a ∈ c.interfaces → (a, true) ∈ kinds

theorem Suits.suitablyLinked {kinds : List (ClassId × Bool)} (hs : Suits kinds cls) :
    SuitablyLinked kinds (linked cls) where
  super {a} ha := by
    obtain ⟨name, hname, rfl⟩ := Option.map_eq_some_iff.mp ha
    have hmem := List.mem_of_head? hname
    cases hi : cls.isInterface with
    | true => simp [hi] at hmem
    | false => exact ⟨hi, hi ▸ hs.extended (by simpa [hi] using hmem)⟩
  interfaces {a} ha := by
    obtain ⟨name, hname, rfl⟩ := List.mem_map.mp ha
    split at hname
    · rename_i hi
      exact hi ▸ hs.extended hname
    · exact (hs.implemented hname).2

/-- What linking keeps: names and kinds, suitable supertypes, and that there are no members and no
methods yet. -/
structure Linking (kinds : List (ClassId × Bool)) (h : Hierarchy) : Prop where
  kinds_eq : h.kinds = kinds
  members : h.members = []
  bare {c : ClassDecl} : c ∈ h.declared → c.outline = c
  suitable {c : ClassDecl} : c ∈ h.declared → SuitablyLinked kinds c

theorem linking_shells (hh : declareClasses o classes = .ok h) : Linking h.kinds h := by
  obtain ⟨hdeclared, hmembers, _⟩ := declareClasses_ok hh
  refine ⟨rfl, hmembers, ?_, ?_⟩
  · intro c hc
    rw [hdeclared] at hc
    obtain ⟨cls, _, rfl⟩ := List.mem_map.mp hc
    rfl
  · intro c hc
    rw [hdeclared] at hc
    obtain ⟨cls, _, rfl⟩ := List.mem_map.mp hc
    exact ⟨fun ha => absurd ha (by simp [shell]), fun ha => absurd ha (by simp [shell])⟩

theorem linking_step {kinds : List (ClassId × Bool)} (hn : (kinds.map (·.1)).Nodup)
    (hcls : (classId cls.name, cls.isInterface) ∈ kinds) (hl : Linking kinds h)
    (hstep : linkSupertypes o h cls = .ok h') : Linking kinds h' := by
  have hids : h.ids.Nodup := by rw [Hierarchy.ids_eq_kinds, hl.kinds_eq]; exact hn
  obtain ⟨hsuits, rfl⟩ := (linkSupertypes_eq_ok_iff hids).mp hstep
  rw [hl.kinds_eq] at hsuits
  obtain ⟨c, hc, hcid, hckind⟩ := Hierarchy.mem_kinds.mp (hl.kinds_eq ▸ hcls)
  have hupdate : (h.update (linked cls)).kinds = h.kinds :=
    Hierarchy.map_update hids hc hcid.symm (by rw [hcid, hckind]; rfl)
  refine ⟨hupdate.trans hl.kinds_eq, hl.members, ?_, ?_⟩
  · intro c hc
    rcases mem_of_mem_update hc with rfl | hc
    · rfl
    · exact hl.bare hc
  · intro c hc
    rcases mem_of_mem_update hc with rfl | hc
    · exact hsuits.suitablyLinked
    · exact hl.suitable hc

theorem addMember_ok (hstep : addMember o h cls = .ok h') :
    h.isCyclic (classId cls.name) = false ∧
      h' = { h with members := h.members ++ [classId cls.name] } := by
  unfold addMember at hstep
  split at hstep
  · exact absurd hstep (by simp [Origin.reject])
  · rename_i hacyclic
    unfold Hierarchy.add at hstep
    split at hstep
    · exact absurd hstep (by simp [Origin.attempt, Origin.reject])
    · cases hstep
      exact ⟨by simpa using hacyclic, rfl⟩

/-- **Once all classes are members, they are linked as they have to be.** -/
theorem linked_addMembers (hn : h.ids.Nodup) (hids : h.ids = classes.map fun c => classId c.name)
    (hl : Linking h.kinds h) (hh : classes.foldlM (addMember o) h = .ok h') :
    h'.Linked ∧ h'.declared = h.declared := by
  have hadded : h'.declared = h.declared ∧ h'.members = (classes.map fun c => classId c.name) ∧
      ∀ a ∈ (classes.map fun c => classId c.name), h.isCyclic a = false := by
    refine foldlM_induction (P := fun done k => k.declared = h.declared ∧
      k.members = (done.map fun c => classId c.name) ∧
        ∀ a ∈ (done.map fun c => classId c.name), h.isCyclic a = false) ?_ ?_ hh
    · rintro done c k k' _ ⟨hdeclared, hmembers, hacyclic⟩ hstep
      obtain ⟨hc, rfl⟩ := addMember_ok hstep
      -- the search for cycles looks at the declared classes only
      have hsame : k.isCyclic (classId c.name) = h.isCyclic (classId c.name) := by
        obtain ⟨declared, members⟩ := k
        cases hdeclared
        rfl
      refine ⟨hdeclared, by simp [hmembers], ?_⟩
      intro a ha
      rw [List.map_append, List.mem_append] at ha
      rcases ha with ha | ha
      · exact hacyclic a ha
      · rw [List.mem_singleton.mp ha, ← hsame]
        exact hc
    · exact ⟨rfl, hl.members, fun a ha => absurd ha (by simp)⟩
  obtain ⟨hdeclared, hmembers, hacyclic⟩ := hadded
  obtain ⟨declared, members⟩ := h'
  cases hdeclared
  cases hmembers
  refine ⟨⟨hn, hids.symm, fun hc ha => (hl.suitable hc).super ha,
    fun hc ha => (hl.suitable hc).interfaces ha, ?_⟩, rfl⟩
  exact Hierarchy.acyclic_of_not_isCyclic (h := h) (hids ▸ hacyclic)

/-- The method that a source method stands for, without its code. -/
def declaration (cls : Source.Class) (m : Source.Method) : Method where
  id := ⟨classId cls.name, m.subsig⟩
  isStatic := m.modifiers.contains .staticWord
  isAbstract := m.modifiers.contains .abstractWord || (cls.isInterface && m.body.isNone)
  isPrivate := m.modifiers.contains .privateWord
  paramNames := m.params.zipIdx.map fun ((_, name), i) => paramName i name
  body := none

/-- **Declaring a method adds it to the class that owns it, if it is new there.** An abstract method
has no code. -/
theorem declareMethod_ok [Nesting] {m : Source.Method} (hstep : declareMethod o cls h m = .ok h') :
    ((declaration cls m).isAbstract = true → m.body = none) ∧
      ∃ c, h.class? (classId cls.name) = some c ∧ c.method? m.subsig = none ∧
        h' = h.update { c with methods := c.methods ++ [declaration cls m] } := by
  unfold declareMethod at hstep
  dsimp only at hstep
  split at hstep
  · exact absurd hstep (by simp [Origin.reject, bind, Except.bind])
  rename_i habstract
  unfold Hierarchy.declareMethod at hstep
  split at hstep
  · exact absurd hstep (by simp [Origin.attempt, Origin.reject])
  rename_i c hc
  unfold ClassDecl.declare at hstep
  split at hstep
  · exact absurd hstep (by simp [Origin.attempt, Origin.reject, bind, Except.bind])
  split at hstep
  · exact absurd hstep (by simp [Origin.attempt, Origin.reject, bind, Except.bind])
  rename_i hnew
  cases hstep
  refine ⟨?_, c, hc, by simpa using hnew, rfl⟩
  intro hdeclared
  rw [Bool.and_eq_true, not_and, Bool.not_eq_true, Option.isSome_eq_false_iff,
    Option.isNone_iff_eq_none] at habstract
  exact habstract hdeclared

/-- A hierarchy whose classes are linked like those of another one, with methods that stand where
they belong. -/
def Fills (h h' : Hierarchy) : Prop :=
  h'.outline = h.outline ∧ h'.members = h.members ∧ h'.Owned

theorem Fills.ids_eq (hk : Fills h h') : h'.ids = h.ids := by
  rw [Hierarchy.ids_eq_kinds, Hierarchy.kinds_eq_outline, hk.1, ← Hierarchy.kinds_eq_outline,
    ← Hierarchy.ids_eq_kinds]

theorem fills_declareMethod [Nesting] {k k' : Hierarchy} {m : Source.Method} (hn : h.ids.Nodup)
    (hk : Fills h k) (hstep : declareMethod o cls k m = .ok k') : Fills h k' := by
  have hids : k.ids.Nodup := hk.ids_eq ▸ hn
  obtain ⟨houtline, hmembers, howned⟩ := hk
  obtain ⟨_, c, hc, hnew, rfl⟩ := declareMethod_ok hstep
  obtain ⟨hmem, hid⟩ := Hierarchy.mem_of_class? hc
  have hupdate :
      (k.update { c with methods := c.methods ++ [declaration cls m] }).outline = k.outline :=
    Hierarchy.map_update hids hmem rfl rfl
  refine ⟨hupdate.trans houtline, hmembers, ?_, ?_⟩
  · intro d m' hd hm'
    rcases mem_of_mem_update hd with rfl | hd
    · rcases List.mem_append.mp hm' with hm' | hm'
      · have howner : m'.id.owner = c.id := howned.owner hmem hm'
        exact howner
      · rw [List.mem_singleton.mp hm']
        exact hid.symm
    · exact howned.owner hd hm'
  · intro d hd
    rcases mem_of_mem_update hd with rfl | hd
    · rw [List.map_append, List.nodup_append]
      refine ⟨howned.nodup hmem, by simp, ?_⟩
      intro i hi j hj hij
      obtain ⟨y, hy, rfl⟩ := List.mem_map.mp hi
      have hq : y.id = (declaration cls m).id := by simpa [hij] using hj
      have hfound := List.find?_eq_none.mp hnew y hy
      simp [hq, declaration] at hfound
    · exact howned.nodup hd

theorem fills_setBody {k : Hierarchy} {b : Body} (hk : Fills h k) : Fills h (setBody k b) := by
  obtain ⟨houtline, hmembers, howned⟩ := hk
  -- a body is put into a method, whose identity stays
  have hids : ∀ c : ClassDecl, (c.methods.map fun m =>
      if m.id = b.method then { m with body := some b } else m).map (·.id) =
        c.methods.map (·.id) := by
    intro c
    rw [List.map_map]
    refine List.map_congr_left ?_
    intro m _
    simp only [Function.comp_apply]
    split <;> rfl
  refine ⟨?_, hmembers, ?_, ?_⟩
  · rw [← houtline]
    unfold Hierarchy.outline setBody
    rw [List.map_map]
    refine List.map_congr_left ?_
    intro c _
    simp only [Function.comp_apply]
    split <;> rfl
  · intro d m hd hm
    obtain ⟨c, hc, rfl⟩ := List.mem_map.mp hd
    split at hm
    · rename_i hq
      rw [if_pos hq]
      have hmem : m.id ∈ c.methods.map (·.id) := hids c ▸ List.mem_map_of_mem hm
      obtain ⟨x, hx, hxm⟩ := List.mem_map.mp hmem
      have howner : x.id.owner = c.id := howned.owner hc hx
      rw [← hxm]
      exact howner
    · rename_i hq
      rw [if_neg hq]
      exact howned.owner hc hm
  · intro d hd
    obtain ⟨c, hc, rfl⟩ := List.mem_map.mp hd
    split
    · rw [hids c]
      exact howned.nodup hc
    · exact howned.nodup hc

/-- Puts the code of a source method into the hierarchy, if it has any. -/
def addBody (o : Origin) (h : Hierarchy) (e : Source.Class × Source.Method) :
    Except ProgramError Hierarchy :=
  match e.2.body with
  | none => .ok h
  | some items => do return setBody h (← body o h (declaration e.1 e.2).id e.2 items)

theorem addBody_ok {e : Source.Class × Source.Method} (hstep : addBody o h e = .ok h') :
    h' = h ∨ ∃ items b, e.2.body = some items ∧
      body o h (declaration e.1 e.2).id e.2 items = .ok b ∧ h' = setBody h b := by
  unfold addBody at hstep
  split at hstep
  · cases hstep
    exact Or.inl rfl
  · rename_i items hitems
    obtain ⟨b, hb, hstep⟩ := bind_eq_ok.mp hstep
    cases hstep
    exact Or.inr ⟨items, b, hitems, hb, rfl⟩

/-- The first stages of name resolution declare all classes and link them; then they become members. -/
theorem exists_linking [Nesting] (hh : hierarchy o classes = .ok h) :
    ∃ h₂ h₃ h₄ : Hierarchy, Linking h₂.kinds h₂ ∧ h₂.ids = (classes.map fun c => classId c.name) ∧
      h₂.ids.Nodup ∧ classes.foldlM (addMember o) h₂ = .ok h₃ ∧
      (methodsOf classes).foldlM (fun h (c, m) => declareMethod o c h m) h₃ = .ok h₄ ∧
      (methodsOf classes).foldlM (addBody o) h₄ = .ok h := by
  obtain ⟨h₁, hdeclared, hh⟩ := bind_eq_ok.mp hh
  obtain ⟨h₂, hlinked, hh⟩ := bind_eq_ok.mp hh
  obtain ⟨h₃, hadded, hh⟩ := bind_eq_ok.mp hh
  obtain ⟨h₄, hmethods, hh⟩ := bind_eq_ok.mp hh
  obtain ⟨hshells, _, hnodup⟩ := declareClasses_ok hdeclared
  have hids₁ : h₁.ids = classes.map fun c => classId c.name := by
    simp [Hierarchy.ids, hshells, shell]
  have hlinking : Linking h₁.kinds h₂ := by
    refine foldlM_invariant (P := Linking h₁.kinds) ?_ (linking_shells hdeclared) hlinked
    intro k c hc k' hk hs
    have hkind : (classId c.name, c.isInterface) ∈ h₁.kinds :=
      Hierarchy.mem_kinds.mpr ⟨shell c, hshells ▸ List.mem_map_of_mem hc, rfl, rfl⟩
    exact linking_step (Hierarchy.ids_eq_kinds h₁ ▸ hnodup) hkind hk hs
  have hids₂ : h₂.ids = h₁.ids := by
    rw [Hierarchy.ids_eq_kinds, Hierarchy.ids_eq_kinds, hlinking.kinds_eq]
  exact ⟨h₂, h₃, h₄, hlinking.kinds_eq ▸ hlinking, hids₂.trans hids₁, hids₂ ▸ hnodup, hadded, hmethods, hh⟩

/-- **The last stages of name resolution start from linked classes without methods**: they declare the
methods, and put the code into them. -/
theorem exists_stages [Nesting] (hh : hierarchy o classes = .ok h) :
    ∃ h₃ h₄ : Hierarchy, h₃.Linked ∧ (∀ c ∈ h₃.declared, c.methods = []) ∧
      (methodsOf classes).foldlM (fun h (c, m) => declareMethod o c h m) h₃ = .ok h₄ ∧
      (methodsOf classes).foldlM (addBody o) h₄ = .ok h := by
  obtain ⟨h₂, h₃, h₄, hlinking, hids, hnodup, hadded, hmethods, hbodies⟩ := exists_linking hh
  obtain ⟨hlinked₃, hdeclared₃⟩ := linked_addMembers hnodup hids hlinking hadded
  refine ⟨h₃, h₄, hlinked₃, ?_, hmethods, hbodies⟩
  intro c hc
  rw [hdeclared₃] at hc
  exact (congrArg ClassDecl.methods (hlinking.bare hc)).symm

theorem owned_of_bare (hnone : ∀ c ∈ h.declared, c.methods = []) : h.Owned := by
  refine ⟨?_, ?_⟩
  · intro c m hc hm
    rw [hnone c hc] at hm
    exact absurd hm (by simp)
  · intro c hc
    rw [hnone c hc]
    simp

/-- The last stages fill the classes with methods. -/
theorem fills_of_stages [Nesting] {h₃ h₄ : Hierarchy} (hn : h₃.ids.Nodup)
    (hbare : ∀ c ∈ h₃.declared, c.methods = [])
    (hmethods : (methodsOf classes).foldlM (fun h (c, m) => declareMethod o c h m) h₃ = .ok h₄)
    (hbodies : (methodsOf classes).foldlM (addBody o) h₄ = .ok h) : Fills h₃ h := by
  have hfills₄ : Fills h₃ h₄ := by
    refine foldlM_invariant (P := Fills h₃) ?_ ⟨rfl, rfl, owned_of_bare hbare⟩ hmethods
    rintro k ⟨c, m⟩ _ k' hk hs
    exact fills_declareMethod hn hk hs
  refine foldlM_invariant (P := Fills h₃) ?_ hfills₄ hbodies
  intro k e _ k' hk hs
  rcases addBody_ok hs with rfl | ⟨_, _, _, _, rfl⟩
  · exact hk
  · exact fills_setBody hk

/-- **Every hierarchy that was read is well-formed.** -/
theorem wellFormed_classes [Nesting] (hh : hierarchy o classes = .ok h) : h.WellFormed := by
  obtain ⟨h₃, h₄, hlinked₃, hbare, hmethods, hbodies⟩ := exists_stages hh
  obtain ⟨houtline, hmembers, howned⟩ := fills_of_stages hlinked₃.nodup hbare hmethods hbodies
  exact ⟨hlinked₃.congr houtline hmembers, howned⟩

end Resolve

/-- **The classes of a program that was read from a text are well-formed.** -/
theorem Program.Parsed.classes_wellFormed [Nesting] {p : Program} (hp : p.Parsed) :
    p.hierarchy.WellFormed := by
  obtain ⟨o, classes, hres⟩ := hp.exists_classes
  exact Resolve.wellFormed_classes hres

end TacFlow
