import Mathlib.Data.Finset.Card
import TacFlow.Proofs.Calls.Dispatch
import TacFlow.Proofs.Program.Faults

/-!
# Cyclic inheritance

A class is made a member only if a search from its supertypes does not come back to it. The search goes
through all supertypes, so it may well enter a cycle that the class is not on; it ends there, because it
expands every class once, and it does not find what it looks for. So a class is refused for the cycle that
it lies on, never for one that it inherits from, and the classes are asked in the order of the text.

`Suitable` is what has to hold of the declarations for name resolution to get that far: then it declares
all classes and links all of them, to exactly the supertypes that they name, before it looks at the first.
What it accepts has no cycle, and that is all that makes the loop over superclasses in a dispatch end.
-/

namespace TacFlow

open Relation (ReflTransGen TransGen)

namespace Source

/-- The declarations have different names, and the supertypes that they name are declared and of the right
kind. -/
structure Suitable (classes : List Class) : Prop where
  nodup : (classes.map (·.name)).Nodup
  /-- A class extends one class at most. -/
  single {c : Class} : c ∈ classes → c.isInterface = false → c.extended.length ≤ 1
  /-- A class extends classes, and an interface extends interfaces. -/
  extended {c : Class} {name : String} : c ∈ classes → name ∈ c.extended →
    ∃ d ∈ classes, d.name = name ∧ d.isInterface = c.isInterface
  /-- Only a class implements, and it implements interfaces. -/
  implemented {c : Class} {name : String} : c ∈ classes → name ∈ c.implemented →
    c.isInterface = false ∧ ∃ d ∈ classes, d.name = name ∧ d.isInterface = true

/-- A declaration names another one as a supertype. -/
def Names (classes : List Class) (a b : String) : Prop :=
  ∃ c ∈ classes, c.name = a ∧ (b ∈ c.extended ∨ b ∈ c.implemented)

/-- The links from a class lead back to it. -/
def OnCycle (classes : List Class) (name : String) : Prop :=
  TransGen (Names classes) name name

/-- A class lies on a cycle, and no class before it in the text does. -/
def FirstOnCycle (classes : List Class) (c : Class) : Prop :=
  ∃ done rest, classes = done ++ c :: rest ∧ OnCycle classes c.name ∧
    ∀ d ∈ done, ¬ OnCycle classes d.name

theorem exists_firstOnCycle {classes : List Class} {name : String} (h : OnCycle classes name) :
    ∃ c, FirstOnCycle classes c := by
  -- whatever lies on a cycle names a supertype, so it is declared
  have hdeclared : ∃ c ∈ classes, OnCycle classes c.name := by
    obtain ⟨_, ⟨c, hc, hname, _⟩, _⟩ := TransGen.head'_iff.mp h
    exact ⟨c, hc, hname ▸ h⟩
  have key : ∀ rest done, classes = done ++ rest → (∀ d ∈ done, ¬ OnCycle classes d.name) →
      (∃ c ∈ rest, OnCycle classes c.name) → ∃ c, FirstOnCycle classes c := by
    intro rest
    induction rest with
    | nil =>
        rintro _ _ _ ⟨c, hc, _⟩
        exact absurd hc (by simp)
    | cons c rest ih =>
        rintro done hsplit hdone ⟨d, hd, hcycle⟩
        by_cases hc : OnCycle classes c.name
        · exact ⟨c, done, rest, hsplit, hc, hdone⟩
        · refine ih (done ++ [c]) (by simp [hsplit]) ?_ ⟨d, ?_, hcycle⟩
          · intro e he
            rcases List.mem_append.mp he with he | he
            · exact hdone e he
            · exact List.mem_singleton.mp he ▸ hc
          · refine (List.mem_cons.mp hd).resolve_left ?_
            rintro rfl
            exact hc hcycle
  exact key classes [] rfl (by simp) hdeclared

end Source

/-! ## Chains of superclasses -/

namespace Hierarchy

variable {h : Hierarchy} {a b c : ClassId}

/-- The superclasses of a class, from the class up to one that has none. -/
inductive SuperChain (h : Hierarchy) : ClassId → List ClassId → Prop where
  | top {c : ClassId} : h.super? c = none → SuperChain h c [c]
  | above {c d : ClassId} {chain : List ClassId} :
      h.super? c = some d → SuperChain h d chain → SuperChain h c (c :: chain)

open Classical in
/-- How many classes are above a class. -/
noncomputable def rank (h : Hierarchy) (a : ClassId) : Nat :=
  (h.ids.toFinset.filter (TransGen h.HasParent a)).card

open Classical in
/-- A supertype has fewer classes above it. -/
theorem rank_lt (hl : h.Linked) (hab : h.HasParent a b) : h.rank b < h.rank a := by
  refine Finset.card_lt_card (Finset.ssubset_iff_subset_ne.mpr ⟨?_, ?_⟩)
  · intro d hd
    rw [Finset.mem_filter] at hd ⊢
    exact ⟨hd.1, .head hab hd.2⟩
  · intro heq
    have hb : b ∈ h.ids.toFinset.filter (TransGen h.HasParent a) :=
      Finset.mem_filter.mpr ⟨List.mem_toFinset.mpr (HasParent.mem_ids hl hab), TransGen.single hab⟩
    rw [← heq] at hb
    -- it would be above itself
    exact hl.acyclic b (Finset.mem_filter.mp hb).2

/-- **The chain of superclasses ends**, from every class. -/
theorem exists_superChain (hl : h.Linked) (c : ClassId) : ∃ chain, h.SuperChain c chain := by
  induction hr : h.rank c using Nat.strong_induction_on generalizing c with
  | h n ih =>
      cases hs : h.super? c with
      | none => exact ⟨[c], .top hs⟩
      | some d =>
          have hlt := rank_lt hl (hasParent_of_super? hs)
          obtain ⟨chain, hchain⟩ := ih (h.rank d) (hr ▸ hlt) d rfl
          exact ⟨c :: chain, .above hs hchain⟩

end Hierarchy

namespace Resolve

open Source (Suitable Names OnCycle FirstOnCycle)

variable {o : Origin} {h : Hierarchy} {c : Source.Class} {classes : List Source.Class}

/-! ## Folds whose states are known -/

section

variable {ε α β : Type} {f : β → α → Except ε β} {as : List α}

/-- A fold that is in a known state after every element ends in the last of these states. -/
theorem foldlM_states (state : List α → β) (hstep : ∀ done a rest, as = done ++ a :: rest →
    f (state done) a = .ok (state (done ++ [a]))) : as.foldlM f (state []) = .ok (state as) := by
  have key : ∀ rest done, as = done ++ rest → rest.foldlM f (state done) = .ok (state as) := by
    intro rest
    induction rest with
    | nil =>
        intro done hsplit
        rw [hsplit, List.append_nil]
        rfl
    | cons a rest ih =>
        intro done hsplit
        rw [List.foldlM_cons, hstep done a rest hsplit]
        exact ih (done ++ [a]) (by simp [hsplit])
  exact key as [] rfl

/-- It fails with the first element that fails. -/
theorem foldlM_states_error (state : List α → β) {done rest : List α} {a : α} {e : ε}
    (hstep : ∀ front b back, done = front ++ b :: back →
      f (state front) b = .ok (state (front ++ [b])))
    (ha : f (state done) a = .error e) : (done ++ a :: rest).foldlM f (state []) = .error e := by
  rw [List.foldlM_append, foldlM_states state hstep]
  change (a :: rest).foldlM f (state done) = .error e
  rw [List.foldlM_cons, ha]
  rfl

end

/-! ## Declaring and linking -/

theorem classId_inj {a b : String} : classId a = classId b ↔ a = b := by
  simp [classId]

/-- In suitable declarations, a class has another name than those before it. -/
theorem name_ne_of_split (hs : Suitable classes) {done rest : List Source.Class}
    (hsplit : classes = done ++ c :: rest) {d : Source.Class} (hd : d ∈ done ∨ d ∈ rest) :
    d.name ≠ c.name := by
  have hnodup := hs.nodup
  rw [hsplit, List.map_append, List.map_cons, List.nodup_append, List.nodup_cons] at hnodup
  obtain ⟨_, ⟨hrest, _⟩, hdone⟩ := hnodup
  rcases hd with hd | hd
  · exact hdone _ (List.mem_map_of_mem hd) _ List.mem_cons_self
  · exact fun hq => hrest (hq ▸ List.mem_map_of_mem hd)

theorem declareClasses_of_suitable (hs : Suitable classes) :
    declareClasses o classes = .ok ⟨classes.map shell, []⟩ := by
  refine foldlM_states (fun done => Hierarchy.mk (done.map shell) []) ?_
  intro done c rest hsplit
  have hnew : (Hierarchy.class? ⟨done.map shell, []⟩ (classId c.name)).isSome = false := by
    rw [← Bool.not_eq_true]
    intro hfound
    obtain ⟨d, hd, hid⟩ := List.find?_isSome.mp hfound
    obtain ⟨d', hd', rfl⟩ := List.mem_map.mp hd
    have hid : (shell d').id = classId c.name := by simpa using hid
    exact name_ne_of_split hs hsplit (Or.inl hd') (classId_inj.mp hid)
  rw [hnew]
  simp [Hierarchy.declare]

/-- The kinds of the classes are those of their declarations, linked or not. -/
def kindsOf (classes : List Source.Class) : List (ClassId × Bool) :=
  classes.map fun c => (classId c.name, c.isInterface)

theorem mem_kindsOf {name : String} {kind : Bool} :
    (classId name, kind) ∈ kindsOf classes ↔ ∃ d ∈ classes, d.name = name ∧ d.isInterface = kind := by
  simp [kindsOf, classId]

theorem nodup_ids (hs : Suitable classes) (hk : h.kinds = kindsOf classes) : h.ids.Nodup := by
  have hids : h.ids = (classes.map (·.name)).map classId := by
    rw [Hierarchy.ids_eq_kinds, hk, kindsOf, List.map_map, List.map_map]
    rfl
  rw [hids]
  exact hs.nodup.map fun a b => classId_inj.mp

theorem suits_of_suitable (hs : Suitable classes) (hc : c ∈ classes) : Suits (kindsOf classes) c where
  single := hs.single hc
  extended hname := mem_kindsOf.mpr (hs.extended hc hname)
  implemented hname := ⟨(hs.implemented hc hname).1, mem_kindsOf.mpr (hs.implemented hc hname).2⟩

/-- The first classes have their links, and the others do not have them yet. -/
def linkedUpTo (classes done : List Source.Class) : Hierarchy :=
  ⟨done.map linked ++ (classes.drop done.length).map shell, []⟩

theorem kinds_linkedUpTo {done rest : List Source.Class} (hsplit : classes = done ++ rest) :
    (linkedUpTo classes done).kinds = kindsOf classes := by
  simp only [linkedUpTo, Hierarchy.kinds, kindsOf, hsplit, List.drop_left, List.map_append, List.map_map]
  rfl

/-- Linking a class replaces it where it stands. -/
theorem update_linkedUpTo (hs : Suitable classes) {done rest : List Source.Class}
    (hsplit : classes = done ++ c :: rest) :
    (linkedUpTo classes done).update (linked c) = linkedUpTo classes (done ++ [c]) := by
  have hother : ∀ {d : ClassDecl} {d' : Source.Class}, d.id = classId d'.name → d' ∈ done ∨ d' ∈ rest →
      (if d.id = (linked c).id then linked c else d) = d := by
    intro d d' hid hd'
    refine if_neg fun hq => ?_
    exact name_ne_of_split hs hsplit hd' (classId_inj.mp (hid.symm.trans hq))
  have hdrop : classes.drop done.length = c :: rest := by simp [hsplit]
  have hdrop' : classes.drop (done ++ [c]).length = rest := by simp [hsplit]
  have hdone : done.map ((fun d => if d.id = (linked c).id then linked c else d) ∘ linked) =
      done.map linked := List.map_congr_left fun d hd => hother rfl (Or.inl hd)
  have hrest : rest.map ((fun d => if d.id = (linked c).id then linked c else d) ∘ shell) =
      rest.map shell := List.map_congr_left fun d hd => hother rfl (Or.inr hd)
  have hself : (if (shell c).id = (linked c).id then linked c else shell c) = linked c := if_pos rfl
  simp only [Hierarchy.update, linkedUpTo, hdrop, hdrop', List.map_append, List.map_cons, List.map_map,
    List.map_nil, hdone, hrest, hself, List.append_assoc, List.cons_append, List.nil_append]

/-- **All classes are linked, and nothing else happens to them.** -/
theorem linkAll_of_suitable (hs : Suitable classes) :
    classes.foldlM (linkSupertypes o) ⟨classes.map shell, []⟩ = .ok ⟨classes.map linked, []⟩ := by
  have hstart : linkedUpTo classes [] = ⟨classes.map shell, []⟩ := rfl
  have hend : linkedUpTo classes classes = ⟨classes.map linked, []⟩ := by simp [linkedUpTo]
  rw [← hstart, ← hend]
  refine foldlM_states (linkedUpTo classes) fun done c rest hsplit => ?_
  have hkinds := kinds_linkedUpTo hsplit
  have hsuits : Suits (kindsOf classes) c := suits_of_suitable hs (by simp [hsplit])
  rw [← update_linkedUpTo hs hsplit]
  exact (linkSupertypes_eq_ok_iff (nodup_ids hs hkinds)).mpr ⟨hkinds ▸ hsuits, rfl⟩

/-- **Suitable declarations are those that can be declared and linked.** All others are refused before
anything is asked about cycles. -/
theorem suitable_iff : Suitable classes ↔
    ∃ h, (declareClasses o classes >>= classes.foldlM (linkSupertypes o)) = .ok h := by
  constructor
  · intro hs
    refine ⟨⟨classes.map linked, []⟩, ?_⟩
    rw [declareClasses_of_suitable hs]
    exact linkAll_of_suitable hs
  · rintro ⟨h, hh⟩
    obtain ⟨h₁, hdeclared, hlinks⟩ := bind_eq_ok.mp hh
    obtain ⟨hshells, _, hnodup⟩ := declareClasses_ok hdeclared
    have hkinds : h₁.kinds = kindsOf classes := by
      rw [Hierarchy.kinds, hshells, kindsOf, List.map_map]
      rfl
    have hids : ((kindsOf classes).map (·.1)).Nodup := by
      rw [← hkinds, ← Hierarchy.ids_eq_kinds]
      exact hnodup
    have hall : Linking (kindsOf classes) h ∧ ∀ c ∈ classes, Suits (kindsOf classes) c := by
      refine foldlM_induction (P := fun done k =>
        Linking (kindsOf classes) k ∧ ∀ c ∈ done, Suits (kindsOf classes) c) ?_ ?_ hlinks
      · rintro done c k k' hc ⟨hlinking, hdone⟩ hstep
        have hkids : k.ids.Nodup := by
          rw [Hierarchy.ids_eq_kinds, hlinking.kinds_eq]
          exact hids
        have hkind : (classId c.name, c.isInterface) ∈ kindsOf classes :=
          List.mem_map_of_mem (f := fun c : Source.Class => (classId c.name, c.isInterface)) hc
        refine ⟨linking_step hids hkind hlinking hstep, fun d hd => ?_⟩
        rcases List.mem_append.mp hd with hd | hd
        · exact hdone d hd
        · rw [List.mem_singleton.mp hd]
          exact hlinking.kinds_eq ▸ ((linkSupertypes_eq_ok_iff hkids).mp hstep).1
      · exact ⟨hkinds ▸ linking_shells hdeclared, by simp⟩
    have hnames : (classes.map (·.name)).Nodup := by
      rw [kindsOf, List.map_map] at hids
      refine List.Nodup.of_map classId ?_
      rw [List.map_map]
      exact hids
    exact {
      nodup := hnames
      single := fun hc => (hall.2 _ hc).single
      extended := fun hc hname => mem_kindsOf.mp ((hall.2 _ hc).extended hname)
      implemented := fun hc hname =>
        ((hall.2 _ hc).implemented hname).imp_right mem_kindsOf.mp }

/-! ## Members -/

/-- All classes with their links, and the first ones as members. -/
def joinedUpTo (classes done : List Source.Class) : Hierarchy :=
  ⟨classes.map linked, done.map fun c => classId c.name⟩

/-- The links between linked classes are those that their declarations name. -/
theorem hasParent_joinedUpTo (hs : Suitable classes) {done : List Source.Class} {x y : ClassId} :
    (joinedUpTo classes done).HasParent x y ↔ ∃ a b, Names classes a b ∧ x = classId a ∧ y = classId b := by
  have hkinds : (joinedUpTo classes done).kinds = kindsOf classes := by
    simp only [joinedUpTo, Hierarchy.kinds, kindsOf, List.map_map]
    rfl
  rw [Hierarchy.HasParent, Hierarchy.mem_parents (nodup_ids hs hkinds)]
  constructor
  · rintro ⟨d, hd, rfl, hy⟩
    obtain ⟨c, hc, rfl⟩ := List.mem_map.mp hd
    rcases hy with hy | hy
    · obtain ⟨b, hb, rfl⟩ := List.mem_map.mp hy
      refine ⟨c.name, b, ⟨c, hc, rfl, ?_⟩, rfl, rfl⟩
      split at hb
      · exact Or.inl hb
      · exact Or.inr hb
    · obtain ⟨b, hb, rfl⟩ := Option.map_eq_some_iff.mp hy
      refine ⟨c.name, b, ⟨c, hc, rfl, Or.inl ?_⟩, rfl, rfl⟩
      have hmem := List.mem_of_head? hb
      split at hmem
      · exact absurd hmem (by simp)
      · exact hmem
  · rintro ⟨a, b, ⟨c, hc, rfl, hb⟩, rfl, rfl⟩
    refine ⟨linked c, List.mem_map_of_mem hc, rfl, ?_⟩
    cases hi : c.isInterface with
    | true =>
        have hb : b ∈ c.extended := hb.resolve_right fun hb => by
          simpa [hi] using (hs.implemented hc hb).1
        exact Or.inl (List.mem_map.mpr ⟨b, by simpa [hi] using hb, rfl⟩)
    | false =>
        rcases hb with hb | hb
        · -- the one class that is extended is the head
          obtain ⟨e, hone⟩ : ∃ e, c.extended = [e] := by
            have hlength : c.extended.length = 1 :=
              Nat.le_antisymm (hs.single hc hi) (List.length_pos_of_mem hb)
            exact List.length_eq_one_iff.mp hlength
          rw [hone, List.mem_singleton] at hb
          exact Or.inr (by simp [linked, hi, hone, hb])
        · exact Or.inl (List.mem_map.mpr ⟨b, by simpa [hi] using hb, rfl⟩)

/-- **The search finds a class exactly if it lies on a cycle of the declarations.** -/
theorem isCyclic_joinedUpTo (hs : Suitable classes) {done : List Source.Class} {name : String} :
    (joinedUpTo classes done).isCyclic (classId name) = true ↔ OnCycle classes name := by
  have hlift : ∀ {x y}, TransGen (joinedUpTo classes done).HasParent x y →
      ∃ a b, TransGen (Names classes) a b ∧ x = classId a ∧ y = classId b := by
    intro x y hxy
    induction hxy with
    | single hstep =>
        obtain ⟨a, b, hab, rfl, rfl⟩ := (hasParent_joinedUpTo hs).mp hstep
        exact ⟨a, b, .single hab, rfl, rfl⟩
    | tail _ hstep ih =>
        obtain ⟨a, b, hab, rfl, rfl⟩ := ih
        obtain ⟨b', d, hbd, hb, rfl⟩ := (hasParent_joinedUpTo hs).mp hstep
        obtain rfl := classId_inj.mp hb
        exact ⟨a, d, hab.tail hbd, rfl, rfl⟩
  rw [Hierarchy.isCyclic_iff]
  constructor
  · intro hcycle
    obtain ⟨a, b, hab, ha, hb⟩ := hlift hcycle
    obtain rfl := classId_inj.mp ha
    obtain rfl := classId_inj.mp hb
    exact hab
  · have hstep : ∀ a b, Names classes a b →
        (joinedUpTo classes done).HasParent (classId a) (classId b) :=
      fun a b hab => (hasParent_joinedUpTo hs).mpr ⟨a, b, hab, rfl, rfl⟩
    exact fun hcycle => TransGen.lift classId hstep _ _ hcycle

/-- A class that lies on no cycle becomes a member. -/
theorem addMember_of_not_onCycle (hs : Suitable classes) {done rest : List Source.Class}
    (hsplit : classes = done ++ c :: rest) (hc : ¬ OnCycle classes c.name) :
    addMember o (joinedUpTo classes done) c = .ok (joinedUpTo classes (done ++ [c])) := by
  have hcyclic : ¬ (joinedUpTo classes done).isCyclic (classId c.name) = true :=
    (isCyclic_joinedUpTo hs).not.mpr hc
  have hnew : ¬ (joinedUpTo classes done).members.any (·.name == (classId c.name).name) = true := by
    intro hany
    obtain ⟨x, hx, hname⟩ := List.any_eq_true.mp hany
    obtain ⟨d, hd, rfl⟩ := List.mem_map.mp hx
    exact name_ne_of_split hs hsplit (Or.inl hd) (by simpa [classId] using hname)
  rw [addMember, if_neg hcyclic, Hierarchy.add, if_neg hnew]
  simp [Origin.attempt, joinedUpTo]

theorem addMember_of_onCycle (hs : Suitable classes) {done : List Source.Class}
    (hc : OnCycle classes c.name) :
    addMember o (joinedUpTo classes done) c = o.reject c.pos (.cyclicInheritance c.name) := by
  rw [addMember, if_pos ((isCyclic_joinedUpTo hs).mpr hc)]

/-! ## The result -/

/-- Name resolution comes as far as the members, and then it goes on to the methods. -/
theorem hierarchy_of_suitable [Nesting] (hs : Suitable classes) : hierarchy o classes = (do
    let h ← classes.foldlM (addMember o) (joinedUpTo classes [])
    let h ← (methodsOf classes).foldlM (fun h (c, m) => declareMethod o c h m) h
    (methodsOf classes).foldlM (addBody o) h) := by
  unfold hierarchy
  rw [declareClasses_of_suitable hs]
  change (classes.foldlM (linkSupertypes o) ⟨classes.map shell, []⟩ >>= _) = _
  rw [linkAll_of_suitable hs]
  rfl

/-- What name resolution makes of cycles among suitable declarations. -/
structure RefusesCycles [Nesting] (o : Origin) (classes : List Source.Class) : Prop where
  /-- A class is refused for a cycle if and only if there is a cycle. -/
  refuses : (∃ place name, hierarchy o classes = .error ⟨place, .cyclicInheritance name⟩) ↔
    ∃ name, OnCycle classes name
  /-- It is the first class in the text that lies on one, and its place is given. -/
  first {c : Source.Class} : FirstOnCycle classes c → hierarchy o classes =
    .error ⟨some (SyntaxError.sourceName o.source, o.line c.pos), .cyclicInheritance c.name⟩
  blamed {place : Option (String × Nat)} {name : String} :
    hierarchy o classes = .error ⟨place, .cyclicInheritance name⟩ →
      ∃ c, FirstOnCycle classes c ∧ c.name = name
  /-- Each search for a cycle ends, also where it enters one. -/
  searched (h : Hierarchy) (a : ClassId) :
    Search.Finds h.parents (h.parents a) [] (Search.reach h.ids h.parents (h.parents a))
  /-- Where nothing is refused the superclasses of every class end, and a dispatch with them. -/
  accepted {h : Hierarchy} : hierarchy o classes = .ok h → ∀ c,
    (∃ chain, h.SuperChain c chain) ∧ ∀ s, h.Dispatches s c (h.dispatch c s)

theorem hierarchy_of_firstOnCycle [Nesting] (hs : Suitable classes) (hc : FirstOnCycle classes c) :
    hierarchy o classes =
      .error ⟨some (SyntaxError.sourceName o.source, o.line c.pos), .cyclicInheritance c.name⟩ := by
  obtain ⟨done, rest, hsplit, hcycle, hdone⟩ := hc
  rw [hierarchy_of_suitable hs]
  -- those before it become members
  have hmembers : (done ++ c :: rest).foldlM (addMember o) (joinedUpTo classes []) =
      .error ⟨some (SyntaxError.sourceName o.source, o.line c.pos), .cyclicInheritance c.name⟩ := by
    refine foldlM_states_error (joinedUpTo classes) ?_ (addMember_of_onCycle hs hcycle)
    intro front d back hfront
    have hsplit' : classes = front ++ d :: (back ++ c :: rest) := by simp [hsplit, hfront]
    exact addMember_of_not_onCycle hs hsplit' (hdone d (by simp [hfront]))
  rw [← hsplit] at hmembers
  rw [hmembers]
  rfl

/-- Whatever is refused for a cycle has one. -/
theorem exists_onCycle [Nesting] {place : Option (String × Nat)} {name : String} (hs : Suitable classes)
    (herror : hierarchy o classes = .error ⟨place, .cyclicInheritance name⟩) :
    ∃ name, OnCycle classes name := by
  by_contra hnone
  -- all classes become members, and what comes behind that is not about cycles
  have hmembers : classes.foldlM (addMember o) (joinedUpTo classes []) =
      .ok (joinedUpTo classes classes) :=
    foldlM_states (joinedUpTo classes) fun done c rest hsplit =>
      addMember_of_not_onCycle hs hsplit fun hcycle => hnone ⟨c.name, hcycle⟩
  rw [hierarchy_of_suitable hs, hmembers] at herror
  exact cycleBlind_methods classes _ place name herror

/-- **Cyclic inheritance is refused exactly**, for all suitable declarations. -/
theorem refusesCycles [Nesting] (hs : Suitable classes) : RefusesCycles o classes where
  refuses := by
    constructor
    · rintro ⟨place, name, herror⟩
      exact exists_onCycle hs herror
    · rintro ⟨name, hcycle⟩
      obtain ⟨c, hc⟩ := Source.exists_firstOnCycle hcycle
      exact ⟨_, _, hierarchy_of_firstOnCycle hs hc⟩
  first := hierarchy_of_firstOnCycle hs
  blamed {place name} herror := by
    obtain ⟨_, hcycle⟩ := exists_onCycle hs herror
    obtain ⟨c, hc⟩ := Source.exists_firstOnCycle hcycle
    have hfirst := hierarchy_of_firstOnCycle (o := o) hs hc
    rw [herror] at hfirst
    cases hfirst
    exact ⟨c, hc, rfl⟩
  searched := Hierarchy.finds_supertypes
  accepted hh c := by
    have hw := wellFormed_classes hh
    exact ⟨Hierarchy.exists_superChain hw.toLinked c, fun s => Hierarchy.dispatches_dispatch hw⟩

/-- Two classes that extend each other, in front of them one that extends the first of them, and behind them
an interface that extends itself. -/
def tangled : List Source.Class := [
  ⟨"A", false, false, ["B"], [], [], 0⟩,
  ⟨"B", false, false, ["C"], [], [], 20⟩,
  ⟨"C", false, false, ["B"], ["I"], [], 40⟩,
  ⟨"I", true, false, ["I"], [], [], 70⟩]

theorem suitable_tangled : Suitable tangled where
  nodup := by decide
  single := by
    have h : ∀ c ∈ tangled, c.isInterface = false → c.extended.length ≤ 1 := by decide
    exact fun {c} => h c
  extended := by
    have h : ∀ c ∈ tangled, ∀ name ∈ c.extended,
        ∃ d ∈ tangled, d.name = name ∧ d.isInterface = c.isInterface := by decide
    exact fun {c} _ hc => h c hc _
  implemented := by
    have h : ∀ c ∈ tangled, ∀ name ∈ c.implemented,
        c.isInterface = false ∧ ∃ d ∈ tangled, d.name = name ∧ d.isInterface = true := by decide
    exact fun {c} _ hc => h c hc _

/-- The first class of the text only inherits from a cycle, and the second one is refused. -/
theorem refusesCycles_tangled : Suitable tangled ∧ RefusesCycles ⟨[], none⟩ tangled ∧
    hierarchy ⟨[], none⟩ tangled = .error ⟨some ("<string>", 1), .cyclicInheritance "B"⟩ := by
  have hrefuses := refusesCycles (o := ⟨[], none⟩) suitable_tangled
  refine ⟨suitable_tangled, hrefuses, hrefuses.first ⟨tangled.take 1, tangled.drop 2, rfl, ?_, ?_⟩⟩
  · have hfrom : Names tangled "B" "C" := ⟨⟨"B", false, false, ["C"], [], [], 20⟩, by decide⟩
    have hback : Names tangled "C" "B" := ⟨⟨"C", false, false, ["B"], ["I"], [], 40⟩, by decide⟩
    exact (TransGen.single hfrom).tail hback
  · intro d hd hcycle
    obtain rfl : d = ⟨"A", false, false, ["B"], [], [], 0⟩ := List.mem_singleton.mp hd
    -- nothing names the first class
    have hnone : ∀ c ∈ tangled, ¬ ("A" ∈ c.extended ∨ "A" ∈ c.implemented) := by decide
    obtain ⟨_, _, c, hc, _, hname⟩ := TransGen.tail'_iff.mp hcycle
    exact hnone c hc hname

end Resolve

end TacFlow
