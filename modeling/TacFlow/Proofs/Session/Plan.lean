import Mathlib.Data.List.Nodup
import Mathlib.Logic.Relation
import TacFlow.Session.Plan

/-!
# Plans are complete and in order

Whatever is asked for, and in whatever order, a plan can be run from its front to its back: it holds
what was asked for with everything that this requires, once each, and nothing stands before something
that it requires.

Only the back of a plan ever grows. Setting a configuration and requiring an analysis do the same to
the ids of a plan, so one invariant of lists of ids, `Runnable`, covers both, and what has been given for
an id is out of reach for the requirements of others.
-/

namespace TacFlow

open Relation (TransGen)

/-! ## Requirements -/

namespace Analysis

variable {a b : Analysis} {n : Nat}

/-- The first analysis requires the second directly. -/
def Requires (a b : Analysis) : Prop :=
  b ∈ a.requires

/-- The length of the longest chain of requirements from an analysis on. -/
def height : Analysis → Nat
  | cfg | cha => 0
  | constprop | livevar | icfg => 1
  | deadcode | interConstprop => 2

theorem height_le (a : Analysis) : a.height ≤ 2 := by
  cases a <;> decide

theorem Requires.height_lt (h : a.Requires b) : b.height < a.height := by
  revert h
  unfold Requires
  cases a <;> cases b <;> decide

/-- Requirements do not run in circles. -/
theorem height_lt_of_transGen (h : TransGen Requires a b) : b.height < a.height := by
  induction h with
  | single h => exact h.height_lt
  | tail _ h ih => exact Nat.lt_trans h.height_lt ih

theorem mem_prerequisitesWithin_succ : b ∈ prerequisitesWithin (n + 1) a ↔
    ∃ r, a.Requires r ∧ (b ∈ prerequisitesWithin n r ∨ b = r) := by
  simp [prerequisitesWithin, Requires]

theorem transGen_of_mem_prerequisitesWithin (h : b ∈ prerequisitesWithin n a) :
    TransGen Requires a b := by
  induction n generalizing a with
  | zero => exact absurd h (by simp [prerequisitesWithin])
  | succ n ih =>
      -- the prerequisites of a requirement, or the requirement itself
      obtain ⟨r, hr, hb | rfl⟩ := mem_prerequisitesWithin_succ.mp h
      · exact TransGen.head hr (ih hb)
      · exact TransGen.single hr

theorem mem_prerequisitesWithin_of_transGen (h : TransGen Requires a b) (hn : a.height ≤ n) :
    b ∈ prerequisitesWithin n a := by
  -- along the chain from its front: each link takes one level, and there are as many as it is high
  induction h using TransGen.head_induction_on generalizing n with
  | single h =>
      obtain ⟨m, rfl⟩ := Nat.exists_eq_add_one_of_ne_zero (by have := h.height_lt; omega : n ≠ 0)
      exact mem_prerequisitesWithin_succ.mpr ⟨b, h, Or.inr rfl⟩
  | @head a r h _ ih =>
      have hlt := h.height_lt
      obtain ⟨m, rfl⟩ := Nat.exists_eq_add_one_of_ne_zero (by omega : n ≠ 0)
      exact mem_prerequisitesWithin_succ.mpr ⟨r, h, Or.inl (ih (by omega))⟩

/-- The prerequisites of an analysis are what it requires transitively. -/
theorem mem_prerequisites : b ∈ a.prerequisites ↔ TransGen Requires a b :=
  ⟨transGen_of_mem_prerequisitesWithin,
    fun h => mem_prerequisitesWithin_of_transGen h a.height_le⟩

theorem requires_eq_nil (h : a.height = 0) : a.requires = [] := by
  refine List.eq_nil_iff_forall_not_mem.mpr fun r hr => ?_
  have := Requires.height_lt hr
  omega

/-- Looking further than the longest chain of requirements finds nothing more. -/
theorem prerequisitesWithin_congr {m : Nat} (hm : a.height ≤ m) (hn : a.height ≤ n) :
    prerequisitesWithin m a = prerequisitesWithin n a := by
  induction m generalizing a n with
  | zero =>
      have hnone := requires_eq_nil (Nat.le_zero.mp hm)
      cases n with
      | zero => rfl
      | succ n => simp [prerequisitesWithin, hnone]
  | succ m ih =>
      cases n with
      | zero => simp [prerequisitesWithin, requires_eq_nil (Nat.le_zero.mp hn)]
      | succ n =>
          rw [prerequisitesWithin, prerequisitesWithin]
          refine List.flatMap_congr fun r hr => ?_
          have hlow : r.height < a.height := Requires.height_lt hr
          rw [ih (show r.height ≤ m by omega) (show r.height ≤ n by omega)]

end Analysis

/-! ## Setting and requiring -/

namespace Plan

open Analysis (Requires prerequisitesWithin)

variable {p : Plan} {c d : AnalysisConfig} {a b : Analysis} {l : List Analysis}
  {configs : List AnalysisConfig}

theorem contains_iff : p.contains a = true ↔ a ∈ p.ids := by
  simp [contains]

theorem ids_put (p : Plan) (c : AnalysisConfig) :
    (p.put c).ids = if c.id ∈ p.ids then p.ids else p.ids ++ [c.id] := by
  by_cases h : c.id ∈ p.ids
  · -- what is replaced has the same id
    rw [put, if_pos (contains_iff.mpr h), if_pos h, ids, List.map_map]
    refine List.map_congr_left fun d _ => ?_
    by_cases hd : d.id = c.id
    · simp [hd]
    · simp [hd]
  · rw [put, if_neg (mt contains_iff.mp h), if_neg h]
    simp [ids]

theorem ids_require (p : Plan) (a : Analysis) :
    (p.require a).ids = if a ∈ p.ids then p.ids else p.ids ++ [a] := by
  by_cases h : a ∈ p.ids
  · rw [require, if_pos (contains_iff.mpr h), if_pos h]
  · rw [require, if_neg (mt contains_iff.mp h), ids_put]

theorem get?_eq_none_iff : p.get? a = none ↔ a ∉ p.ids := by
  simp [get?, ids]

theorem id_of_get? (h : p.get? a = some d) : d.id = a := by
  simpa using List.find?_some h

theorem get?_put (p : Plan) (c : AnalysisConfig) (a : Analysis) :
    (p.put c).get? a = if a = c.id then some c else p.get? a := by
  by_cases h : c.id ∈ p.ids
  · -- replaced in place: ids stay, and so the lookup commutes with the map
    have hid : ∀ d : AnalysisConfig, (if d.id = c.id then c else d).id = d.id := by
      intro d
      split
      · rename_i hd
        exact hd.symm
      · rfl
    have hmap : (p.put c).get? a = (p.get? a).map fun d => if d.id = c.id then c else d := by
      rw [put, if_pos (contains_iff.mpr h), get?, List.find?_map]
      simp only [Function.comp_def, hid, get?]
    rw [hmap]
    by_cases ha : a = c.id
    · rw [if_pos ha]
      obtain ⟨d, hd⟩ := Option.ne_none_iff_exists'.mp (mt get?_eq_none_iff.mp (not_not_intro (ha ▸ h)))
      rw [hd, Option.map_some, if_pos ((id_of_get? hd).trans ha)]
    · rw [if_neg ha]
      cases hd : p.get? a with
      | none => rfl
      | some d => rw [Option.map_some, if_neg fun hc => ha ((id_of_get? hd).symm.trans hc)]
  · rw [put, if_neg (mt contains_iff.mp h)]
    by_cases ha : a = c.id
    · have hnone : p.configs.find? (·.id = a) = none := get?_eq_none_iff.mpr (ha ▸ h)
      rw [if_pos ha, get?, List.find?_append, hnone]
      simp [ha]
    · rw [if_neg ha, get?, List.find?_append]
      simp [Ne.symm ha, get?]

theorem get?_require (p : Plan) (a b : Analysis) :
    (p.require b).get? a = if a = b ∧ b ∉ p.ids then some ⟨b, []⟩ else p.get? a := by
  by_cases h : b ∈ p.ids
  · rw [require, if_pos (contains_iff.mpr h), if_neg fun hc => hc.2 h]
  · rw [require, if_neg (mt contains_iff.mp h), get?_put]
    simp [h]

/-! ## Plans that can be run -/

/-- Ids that can be run one after another: none stands twice, and what one requires stands before
it. -/
inductive Runnable : List Analysis → Prop
  | nil : Runnable []
  | snoc {ids : List Analysis} {a : Analysis} : Runnable ids → a ∉ ids →
    (∀ b, a.Requires b → b ∈ ids) → Runnable (ids ++ [a])

namespace Runnable

variable {ids before after : List Analysis}

theorem nodup (h : Runnable ids) : ids.Nodup := by
  induction h with
  | nil => exact List.nodup_nil
  | snoc _ hnew _ ih => exact ih.append (List.nodup_singleton _) (by simpa using hnew)

theorem mem_before_of_requires (h : Runnable ids) (hids : ids = before ++ a :: after)
    (hb : a.Requires b) : b ∈ before := by
  induction h generalizing after with
  | nil => exact absurd hids (by simp)
  | @snoc ids d _ _ hd ih =>
      rcases List.eq_nil_or_concat' after with rfl | ⟨after, e, rfl⟩
      · -- the last one: all that it requires was there
        obtain ⟨rfl, hlast⟩ := List.append_inj' hids rfl
        rw [List.singleton_inj] at hlast
        exact hd b (hlast ▸ hb)
      · rw [← List.cons_append, ← List.append_assoc] at hids
        exact ih (List.append_inj' hids rfl).1

theorem mem_before (h : Runnable ids) (hids : ids = before ++ a :: after)
    (hb : TransGen Requires a b) : b ∈ before := by
  -- the place is generalized: what comes next in the chain stands further to the front
  induction hb using TransGen.head_induction_on generalizing before after with
  | single hr => exact h.mem_before_of_requires hids hr
  | head hr _ ih =>
      obtain ⟨front, back, rfl⟩ := List.append_of_mem (h.mem_before_of_requires hids hr)
      have hfront := ih (hids.trans (List.append_assoc _ _ _))
      exact List.mem_append_left _ hfront

/-- Setting and requiring keep ids runnable where everything required is there. -/
theorem grow (h : Runnable ids) (ha : ∀ b, a.Requires b → b ∈ ids) :
    Runnable (if a ∈ ids then ids else ids ++ [a]) := by
  by_cases hmem : a ∈ ids
  · rwa [if_pos hmem]
  · rw [if_neg hmem]
    exact h.snoc hmem ha

end Runnable

/-! ## Requiring several -/

theorem mem_ids_foldl_require : a ∈ (l.foldl require p).ids ↔ a ∈ p.ids ∨ a ∈ l := by
  induction l generalizing p with
  | nil => simp
  | cons b l ih =>
      have hb : a ∈ (p.require b).ids ↔ a ∈ p.ids ∨ a = b := by
        rw [ids_require]
        by_cases h : b ∈ p.ids
        · rw [if_pos h]
          exact ⟨Or.inl, fun hor => hor.elim id fun heq => heq ▸ h⟩
        · simp [h]
      rw [List.foldl_cons, ih, hb, List.mem_cons, or_assoc]

theorem prefix_foldl_require (p : Plan) (l : List Analysis) :
    p.ids <+: (l.foldl require p).ids := by
  refine List.foldlRecOn (motive := fun q : Plan => p.ids <+: q.ids) _ _ (List.prefix_refl _) ?_
  intro q hq a _
  rw [ids_require]
  split
  · exact hq
  · exact hq.trans (List.prefix_append _ _)

/-- What is required comes without options, unless it was there before. -/
theorem get?_foldl_require (p : Plan) (l : List Analysis) (a : Analysis) :
    (l.foldl require p).get? a = if a ∈ l ∧ a ∉ p.ids then some ⟨a, []⟩ else p.get? a := by
  induction l generalizing p with
  | nil => simp
  | cons b l ih =>
      rw [List.foldl_cons, ih, get?_require, ids_require]
      by_cases ha : a ∈ p.ids
      · -- there from the start: neither the head nor the tail touches it
        have hkept : a ∈ if b ∈ p.ids then p.ids else p.ids ++ [b] := by
          split
          · exact ha
          · exact List.mem_append_left _ ha
        have hne : ¬ (a = b ∧ b ∉ p.ids) := fun h => h.2 (h.1 ▸ ha)
        rw [if_neg fun h => h.2 hkept, if_neg hne, if_neg fun h => h.2 ha]
      · by_cases hb : a = b
        · subst hb
          simp [ha]
        · have hlater : (a ∈ if b ∈ p.ids then p.ids else p.ids ++ [b]) ↔ a ∈ p.ids := by
            split
            · exact Iff.rfl
            · simp [hb]
          simp [hlater, hb]

/-- The prerequisites of an analysis stand in the order in which they can be required. -/
theorem runnable_foldl_prerequisitesWithin {n : Nat} (hn : a.height ≤ n) (hp : Runnable p.ids) :
    Runnable ((prerequisitesWithin n a).foldl require p).ids := by
  induction n generalizing a p with
  | zero => exact hp
  | succ n ih =>
      rw [prerequisitesWithin, List.foldl_flatMap]
      -- requirement by requirement, each behind its own prerequisites
      refine List.foldlRecOn (motive := fun q : Plan => Runnable q.ids) _ _ hp ?_
      intro q hq r hr
      have hlow : r.height ≤ n := by
        have := Requires.height_lt hr
        omega
      rw [List.foldl_append, List.foldl_cons, List.foldl_nil, ids_require]
      refine (ih hlow hq).grow fun b hb => ?_
      exact mem_ids_foldl_require.mpr
        (Or.inr (Analysis.mem_prerequisitesWithin_of_transGen (.single hb) hlow))

/-! ## Adding -/

theorem mem_ids_add : a ∈ (p.add c).ids ↔ a ∈ p.ids ∨ a = c.id ∨ TransGen Requires c.id a := by
  have hbefore : a ∈ (c.id.prerequisites.foldl require p).ids ↔
      a ∈ p.ids ∨ TransGen Requires c.id a := by
    rw [mem_ids_foldl_require, Analysis.mem_prerequisites]
  rw [add, ids_put]
  split
  · rename_i hmem
    rw [hbefore]
    constructor
    · exact fun h => h.imp_right Or.inr
    · rintro (h | rfl | h)
      · exact Or.inl h
      · exact hbefore.mp hmem
      · exact Or.inr h
  · rw [List.mem_append, List.mem_singleton, hbefore, or_assoc, or_comm (a := TransGen Requires c.id a)]

theorem prefix_add (p : Plan) (c : AnalysisConfig) : p.ids <+: (p.add c).ids := by
  have h := prefix_foldl_require p c.id.prerequisites
  rw [add, ids_put]
  split
  · exact h
  · exact h.trans (List.prefix_append _ _)

theorem Runnable.add (h : Runnable p.ids) (c : AnalysisConfig) : Runnable (p.add c).ids := by
  rw [Plan.add, ids_put]
  refine (runnable_foldl_prerequisitesWithin c.id.height_le h).grow fun b hb => ?_
  exact mem_ids_foldl_require.mpr (Or.inr (Analysis.mem_prerequisites.mpr (.single hb)))

theorem get?_add_self (p : Plan) (c : AnalysisConfig) : (p.add c).get? c.id = some c := by
  rw [add, get?_put, if_pos rfl]

/-- Adding a configuration, with all that it requires, changes none of the others. -/
theorem get?_add_of_mem (ha : a ∈ p.ids) (hne : c.id ≠ a) : (p.add c).get? a = p.get? a := by
  rw [add, get?_put, if_neg (Ne.symm hne), get?_foldl_require, if_neg fun h => h.2 ha]

/-- What comes in as a requirement comes in without options. -/
theorem get?_add_of_notMem (ha : a ∉ p.ids) (hne : c.id ≠ a) (hmem : a ∈ (p.add c).ids) :
    (p.add c).get? a = some ⟨a, []⟩ := by
  obtain h | h | h := mem_ids_add.mp hmem
  · exact absurd h ha
  · exact absurd h.symm hne
  · rw [add, get?_put, if_neg (Ne.symm hne), get?_foldl_require,
      if_pos ⟨Analysis.mem_prerequisites.mpr h, ha⟩]

/-! ## Adding one after another -/

theorem mem_ids_foldl_add : a ∈ (configs.foldl add p).ids ↔
    a ∈ p.ids ∨ ∃ c ∈ configs, a = c.id ∨ TransGen Requires c.id a := by
  induction configs generalizing p with
  | nil => simp
  | cons c configs ih =>
      rw [List.foldl_cons, ih, mem_ids_add]
      simp [or_assoc]

theorem prefix_foldl_add (p : Plan) (configs : List AnalysisConfig) :
    p.ids <+: (configs.foldl add p).ids :=
  List.foldlRecOn (motive := fun q : Plan => p.ids <+: q.ids) _ _ (List.prefix_refl _)
    fun q hq c _ => hq.trans (prefix_add q c)

theorem Runnable.foldl_add (h : Runnable p.ids) (configs : List AnalysisConfig) :
    Runnable (configs.foldl Plan.add p).ids :=
  List.foldlRecOn (motive := fun q : Plan => Runnable q.ids) _ _ h fun _ hq c _ => hq.add c

theorem get?_foldl_add_of_mem (ha : a ∈ p.ids) (hne : ∀ c ∈ configs, c.id ≠ a) :
    (configs.foldl add p).get? a = p.get? a := by
  induction configs generalizing p with
  | nil => rfl
  | cons c configs ih =>
      obtain ⟨hc, hrest⟩ := List.forall_mem_cons.mp hne
      rw [List.foldl_cons, ih ((prefix_add p c).subset ha) hrest, get?_add_of_mem ha hc]

theorem get?_foldl_add_of_notMem (ha : a ∉ p.ids) (hne : ∀ c ∈ configs, c.id ≠ a)
    (hmem : a ∈ (configs.foldl add p).ids) : (configs.foldl add p).get? a = some ⟨a, []⟩ := by
  induction configs generalizing p with
  | nil => exact absurd hmem ha
  | cons c configs ih =>
      obtain ⟨hc, hrest⟩ := List.forall_mem_cons.mp hne
      by_cases hnow : a ∈ (p.add c).ids
      · -- from the first configuration that requires it on, nothing changes
        rw [List.foldl_cons, get?_foldl_add_of_mem hnow hrest, get?_add_of_notMem ha hc hnow]
      · exact ih hnow hrest hmem

/-! ## The recursive insert -/

theorem foldl_require_of_subset (h : ∀ a ∈ l, a ∈ p.ids) : l.foldl require p = p := by
  refine List.foldlRecOn (motive := (· = p)) _ _ rfl ?_
  rintro _ rfl a ha
  rw [require, if_pos (contains_iff.mpr (h a ha))]

theorem Runnable.mem_of_transGen (h : Runnable p.ids) (ha : a ∈ p.ids)
    (hb : TransGen Requires a b) : b ∈ p.ids := by
  obtain ⟨before, after, hids⟩ := List.append_of_mem ha
  exact hids ▸ List.mem_append_left _ (h.mem_before hids hb)

/-- An analysis with its prerequisites is required as it would be added without options. -/
theorem foldl_require_eq_add (h : Runnable p.ids) {n : Nat} (hn : a.height ≤ n) :
    (prerequisitesWithin n a ++ [a]).foldl require p =
      if p.contains a then p else p.add ⟨a, []⟩ := by
  rw [List.foldl_append, List.foldl_cons, List.foldl_nil]
  by_cases ha : a ∈ p.ids
  · -- it is there with all that it requires, and requiring changes nothing
    have hall : ∀ b ∈ prerequisitesWithin n a, b ∈ p.ids := fun b hb =>
      h.mem_of_transGen ha (Analysis.transGen_of_mem_prerequisitesWithin hb)
    rw [if_pos (contains_iff.mpr ha), foldl_require_of_subset hall, require,
      if_pos (contains_iff.mpr ha)]
  · have hprereqs : prerequisitesWithin n a = a.prerequisites :=
      Analysis.prerequisitesWithin_congr hn a.height_le
    have hnot : a ∉ (a.prerequisites.foldl require p).ids := by
      rw [mem_ids_foldl_require, Analysis.mem_prerequisites]
      rintro (hmem | hself)
      · exact ha hmem
      · exact Nat.lt_irrefl _ (Analysis.height_lt_of_transGen hself)
    rw [if_neg (mt contains_iff.mp ha), hprereqs, require,
      if_neg (mt contains_iff.mp hnot), add]

/-- **Adding is the recursive insert**: first what the configuration requires directly and is not in
the plan, each with all that it requires in turn, and then the configuration. -/
theorem add_eq_foldl_requires (h : Runnable p.ids) (c : AnalysisConfig) :
    p.add c = (c.id.requires.foldl
      (fun q r => if q.contains r then q else q.add ⟨r, []⟩) p).put c := by
  rw [add, Analysis.prerequisites, prerequisitesWithin, List.foldl_flatMap]
  congr 1
  -- both folds go through the same requirements, and their plans stay equal and runnable
  refine (List.foldl_rel (r := fun q q' : Plan => q = q' ∧ Runnable q.ids) ⟨rfl, h⟩ ?_).1
  rintro r hr q _ ⟨rfl, hq⟩
  have hlow : r.height ≤ 1 := by
    have := Requires.height_lt hr
    have := c.id.height_le
    omega
  rw [foldl_require_eq_add hq hlow]
  refine ⟨rfl, ?_⟩
  split
  · exact hq
  · exact hq.add _

/-! ## The plans that are built -/

/-- The configuration that is read for one of several ids, with the options that a table holds for
it. -/
def readId (table id : Json) : Except PlanError AnalysisConfig := do
  let given ← Options.lookup table id
  let a ← Analysis.ofJson id
  AnalysisConfig.check a (← Options.ofPairs given)

theorem ofIds_eq (ids : List Json) (table : Json) :
    ofIds ids table = do return ofConfigs (← ids.mapM (readId table)) :=
  rfl

/-- The plans that can be built, with the configurations that were added to them in order. -/
inductive Built : List AnalysisConfig → Plan → Prop
  /-- From configurations. -/
  | ofConfigs (given : List AnalysisConfig) : Built given (ofConfigs given)
  /-- From ids and a table of options. -/
  | ofIds {ids : List Json} {table : Json} {given : List AnalysisConfig} {p : Plan} :
    ids.mapM (readId table) = .ok given → Plan.ofIds ids table = .ok p → Built given p
  /-- From the entries of a written plan. -/
  | ofJson {members : List (Json.Str × Json)} {entries : List Json} {given : List AnalysisConfig}
    {p : Plan} : Json.member? members "analyses" = some (.arr entries) →
    entries.mapM readEntry = .ok given → Plan.ofJson (.obj members) = .ok p → Built given p
  /-- From a plan that was built before. -/
  | add {given : List AnalysisConfig} {p : Plan} (c : AnalysisConfig) : Built given p →
    Built (given ++ [c]) (p.add c)

/-- Whatever plan comes of ids was built from the configurations that were read for them. -/
theorem exists_built_of_ofIds {ids : List Json} {table : Json} (h : ofIds ids table = .ok p) :
    ∃ given, ids.mapM (readId table) = .ok given ∧ Built given p := by
  have hread := h
  rw [ofIds_eq] at hread
  cases hgiven : ids.mapM (readId table) with
  | error e =>
      rw [hgiven] at hread
      exact absurd hread (by simp [bind, Except.bind])
  | ok given => exact ⟨given, rfl, .ofIds hgiven h⟩

/-- Whatever plan is read was built from the configurations of its entries. -/
theorem exists_built_of_ofJson {data : Json} (h : ofJson data = .ok p) :
    ∃ members entries given, data = .obj members ∧
      Json.member? members "analyses" = some (.arr entries) ∧
      entries.mapM readEntry = .ok given ∧ Built given p := by
  have hread := h
  unfold ofJson at hread
  split at hread
  · rename_i members
    split at hread
    · rename_i entries hentries
      cases hgiven : entries.mapM readEntry with
      | error e =>
          rw [hgiven] at hread
          exact absurd hread (by simp [bind, Except.bind])
      | ok given => exact ⟨members, entries, given, rfl, hentries, hgiven, .ofJson hentries hgiven h⟩
    · exact absurd hread (by simp)
  · exact absurd hread (by simp)

/-- However a plan was built, it is that of its configurations. -/
theorem Built.eq_ofConfigs {given : List AnalysisConfig} (h : Built given p) :
    p = .ofConfigs given := by
  induction h with
  | ofConfigs given => rfl
  | @ofIds ids table given p hgiven hp =>
      rw [ofIds_eq, hgiven] at hp
      exact (Except.ok.inj hp).symm
  | @ofJson members entries given p hentries hgiven hp =>
      simp only [Plan.ofJson, hentries, hgiven] at hp
      exact (Except.ok.inj hp).symm
  | @add given p c _ ih =>
      rw [Plan.ofConfigs, List.foldl_append, List.foldl_cons, List.foldl_nil, ih, Plan.ofConfigs]

/-- What a plan promises for the configurations that were added to it. -/
structure Serves (given : List AnalysisConfig) (p : Plan) : Prop where
  /-- No analysis stands twice. -/
  nodup_ids : p.ids.Nodup
  /-- The analyses are those that were given with all that they require. -/
  mem_ids {a : Analysis} : a ∈ p.ids ↔ ∃ c ∈ given, a = c.id ∨ TransGen Requires c.id a
  /-- All that an analysis requires stands before it. -/
  required_before {before after : List Analysis} {a b : Analysis} :
    p.ids = before ++ a :: after → TransGen Requires a b → b ∈ before
  /-- Whatever is added later, every id keeps its place. -/
  keeps_place (more : List AnalysisConfig) : p.ids <+: (more.foldl Plan.add p).ids
  /-- An id that was given has its last configuration. -/
  last_given {earlier later : List AnalysisConfig} {c : AnalysisConfig} :
    given = earlier ++ c :: later → (∀ d ∈ later, d.id ≠ c.id) → p.get? c.id = some c
  /-- One that came in as a requirement only has no options. -/
  only_required {a : Analysis} :
    a ∈ p.ids → (∀ c ∈ given, c.id ≠ a) → p.get? a = some ⟨a, []⟩

/-- **Plans are complete, in order and stable**, however they are built. -/
theorem serves_of_built {given : List AnalysisConfig} (h : Built given p) : Serves given p := by
  have hp : p = given.foldl add empty := h.eq_ofConfigs
  have hrunnable : Runnable p.ids := hp ▸ Runnable.foldl_add (p := empty) .nil given
  refine ⟨hrunnable.nodup, fun {a} => ?_, hrunnable.mem_before, prefix_foldl_add p, ?_, ?_⟩
  · rw [hp, mem_ids_foldl_add]
    simp [empty, ids]
  · rintro earlier later c rfl hlater
    have hmem : c.id ∈ ((earlier.foldl add empty).add c).ids := mem_ids_add.mpr (Or.inr (Or.inl rfl))
    rw [hp, List.foldl_append, List.foldl_cons, get?_foldl_add_of_mem hmem hlater, get?_add_self]
  · intro a ha hne
    rw [hp] at ha ⊢
    exact get?_foldl_add_of_notMem (by simp [empty, ids]) hne ha

/-- Asking for dead code and then for another solver of constants. -/
theorem serves_of_built_deadcode :
    ∃ p, Plan.ofIds [.str (.ofString "deadcode")] .null = .ok p ∧
      Serves [⟨.deadcode, []⟩, ⟨.constprop, [(.ofString "solver", .str (.ofString "iterative"))]⟩]
        (p.add ⟨.constprop, [(.ofString "solver", .str (.ofString "iterative"))]⟩) := by
  have hread : [Json.str (.ofString "deadcode")].mapM (readId .null) = .ok [⟨.deadcode, []⟩] := rfl
  exact ⟨_, rfl, serves_of_built (.add _ (.ofIds hread rfl))⟩

end Plan

end TacFlow
