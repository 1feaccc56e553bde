import Mathlib.Data.List.Perm.Subperm
import TacFlow.Constant.Propagation
import TacFlow.Proofs.Constant.Lattice

/-!
# What an environment says

An environment is a list of bindings, and its meaning is the function `Env.get`. Every operation on
environments is determined by what it does to that function, and two environments that pass for the
same are those with the same function.
-/

namespace TacFlow.Env

variable {f g : Env} {x y : Var} {v : Value}

theorem find?_of_mem {es : List (Var × Value)} (hnd : (es.map (·.1)).Nodup) (h : (x, v) ∈ es) :
    es.find? (·.1 = x) = some (x, v) := by
  induction es with
  | nil => exact absurd h (by simp)
  | cons e es ih =>
      rw [List.map_cons, List.nodup_cons] at hnd
      rcases List.mem_cons.mp h with rfl | h
      · simp
      · have hne : e.1 ≠ x := fun hq => hnd.1 (hq ▸ List.mem_map_of_mem (f := (·.1)) h)
        simpa [hne] using ih hnd.2 h

/-- The bindings that are listed are those of the variables that have a value. -/
theorem mem_entries : (x, v) ∈ f.entries ↔ f.get x = v ∧ v ≠ .unassigned := by
  constructor
  · intro h
    refine ⟨?_, f.defined _ h⟩
    unfold get
    rw [find?_of_mem f.nodup h]
    rfl
  · rintro ⟨h, hv⟩
    unfold get at h
    cases hf : f.entries.find? (·.1 = x) with
    | none => rw [hf] at h; exact absurd h.symm hv
    | some e =>
        rw [hf] at h
        have he : e.1 = x := by simpa using List.find?_some hf
        have : e = (x, v) := Prod.ext he h
        exact this ▸ List.mem_of_find?_eq_some hf

theorem get_eq_of_entries (h : ∀ v, (x, v) ∈ f.entries ↔ (y, v) ∈ g.entries) :
    f.get x = g.get y := by
  by_cases hf : f.get x = .unassigned
  · by_cases hg : g.get y = .unassigned
    · rw [hf, hg]
    · exact (mem_entries.mp ((h _).mpr (mem_entries.mpr ⟨rfl, hg⟩))).1
  · exact (mem_entries.mp ((h _).mp (mem_entries.mpr ⟨rfl, hf⟩))).1.symm

@[simp] theorem get_empty (x : Var) : empty.get x = .unassigned := rfl

/-! ## Setting -/

theorem get_erase_self (f : Env) (x : Var) : (f.erase x).get x = .unassigned := by
  by_contra h
  have hm := mem_entries.mpr ⟨rfl, h⟩
  simp [erase] at hm

theorem get_erase_ne (f : Env) (h : y ≠ x) : (f.erase x).get y = f.get y := by
  refine get_eq_of_entries ?_
  intro v
  simp [erase, h]

theorem contains_iff : f.contains x = true ↔ ∃ v, (x, v) ∈ f.entries := by
  simp [contains]

theorem get_insert_self (f : Env) (x : Var) (hv : v ≠ .unassigned) :
    (f.insert x v hv).get x = v := by
  refine (mem_entries.mp ?_).1
  unfold insert
  split
  · rename_i hc
    obtain ⟨w, hw⟩ := contains_iff.mp hc
    exact List.mem_map.mpr ⟨(x, w), hw, by simp⟩
  · simp

theorem get_insert_ne (f : Env) (h : y ≠ x) (hv : v ≠ .unassigned) :
    (f.insert x v hv).get y = f.get y := by
  refine get_eq_of_entries ?_
  intro w
  unfold insert
  split
  · simp only [replaced, List.mem_map]
    constructor
    · rintro ⟨e, he, hq⟩
      split at hq
      · exact absurd (congrArg Prod.fst hq).symm h
      · exact hq ▸ he
    · intro hm
      exact ⟨(y, w), hm, by simp [h]⟩
  · simp [h]

@[simp] theorem get_set_self (f : Env) (x : Var) (v : Value) : (f.set x v).get x = v := by
  unfold set
  split
  · rename_i h; rw [get_erase_self, h]
  · exact get_insert_self f x _

theorem get_set_ne (f : Env) (v : Value) (h : y ≠ x) : (f.set x v).get y = f.get y := by
  unfold set
  split
  · exact get_erase_ne f h
  · exact get_insert_ne f h _

theorem get_set (f : Env) (x : Var) (v : Value) (y : Var) :
    (f.set x v).get y = if y = x then v else f.get y := by
  split
  · rename_i h; rw [h, get_set_self]
  · rename_i h; exact get_set_ne f v h

theorem set_unassigned (f : Env) (x : Var) : f.set x .unassigned = f.erase x :=
  dif_pos rfl

theorem get_set_eq_update (f : Env) (x : Var) (v : Value) :
    (f.set x v).get = Function.update f.get x v := by
  funext y
  rw [get_set, Function.update_apply]

theorem get_ofList (bindings : List (Var × Value)) : (ofList bindings).get =
    bindings.foldl (fun e b => Function.update e b.1 b.2) fun _ => .unassigned := by
  rw [ofList]
  exact (List.foldl_hom get fun f b => (get_set_eq_update f b.1 b.2).symm).symm

theorem eq_of_entries_eq (h : f.entries = g.entries) : f = g := by
  cases f
  cases g
  simp_all

/-- Setting a variable to the value that is listed for it changes nothing. -/
theorem set_of_mem (h : (x, v) ∈ f.entries) : f.set x v = f := by
  rw [set, dif_neg (f.defined _ h), insert, dif_pos (contains_iff.mpr ⟨v, h⟩)]
  refine eq_of_entries_eq ?_
  -- what is replaced is the binding itself
  refine (List.map_congr_left ?_).trans (List.map_id _)
  rintro ⟨y, w⟩ he
  by_cases hy : y = x
  · subst hy
    have hfound := (find?_of_mem f.nodup h).symm.trans (find?_of_mem f.nodup he)
    simpa using Option.some.inj hfound
  · simp [hy]

/-! ## Copying and joining -/

/-- Setting the listed variables one after another: each is set once, from its old value. -/
theorem get_foldl_set (combine : Value → Value → Value) (f g : Env) (y : Var) :
    (g.entries.foldl (fun acc e => acc.set e.1 (combine e.2 (acc.get e.1))) f).get y =
      if g.get y = .unassigned then f.get y else combine (g.get y) (f.get y) := by
  have key : ∀ (es : List (Var × Value)) (f : Env), (es.map (·.1)).Nodup →
      ((∀ v, (y, v) ∉ es) →
        (es.foldl (fun acc e => acc.set e.1 (combine e.2 (acc.get e.1))) f).get y = f.get y) ∧
      (∀ v, (y, v) ∈ es →
        (es.foldl (fun acc e => acc.set e.1 (combine e.2 (acc.get e.1))) f).get y =
          combine v (f.get y)) := by
    intro es
    induction es with
    | nil => intro f _; simp
    | cons e es ih =>
        intro f hnd
        rw [List.map_cons, List.nodup_cons] at hnd
        obtain ⟨habsent, hlisted⟩ := ih (f.set e.1 (combine e.2 (f.get e.1))) hnd.2
        refine ⟨?_, ?_⟩
        · intro h
          have hne : y ≠ e.1 := fun hq => h e.2 (by rw [hq]; exact List.mem_cons_self)
          rw [List.foldl_cons, habsent (fun v hv => h v (List.mem_cons_of_mem e hv)),
            get_set_ne f _ hne]
        · intro v hv
          rw [List.foldl_cons]
          rcases List.mem_cons.mp hv with rfl | hv
          · -- the variable does not occur again
            rw [habsent (fun w hw => hnd.1 (List.mem_map_of_mem (f := (·.1)) hw)), get_set_self]
          · have hne : y ≠ e.1 := fun hq => hnd.1 (hq ▸ List.mem_map_of_mem (f := (·.1)) hv)
            rw [hlisted v hv, get_set_ne f _ hne]
  obtain ⟨habsent, hlisted⟩ := key g.entries f g.nodup
  split
  · rename_i h
    refine habsent ?_
    intro v hv
    obtain ⟨hq, hne⟩ := mem_entries.mp hv
    exact hne (hq.symm.trans h)
  · rename_i h
    exact hlisted _ (mem_entries.mpr ⟨rfl, h⟩)

/-- Copying overwrites what the copied environment knows and keeps the rest. -/
theorem get_copyFrom (f g : Env) (y : Var) :
    (f.copyFrom g).1.get y = if g.get y = .unassigned then f.get y else g.get y := by
  have key : ∀ (es : List (Var × Value)) (f : Env) (c : Bool),
      (es.foldl (fun (s : Env × Bool) e =>
        ((s.1.update e.1 e.2).1, s.2 || (s.1.update e.1 e.2).2)) (f, c)).1 =
        es.foldl (fun acc e => acc.set e.1 e.2) f := by
    intro es
    induction es with
    | nil => intro f c; rfl
    | cons e es ih => intro f c; exact ih _ _
  have h := get_foldl_set (fun v _ => v) f g y
  rw [← h]
  exact congrArg (fun e => Env.get e y) (key g.entries f false)

/-- Copying tells whether it changed anything. -/
theorem copyFrom_snd_iff : (f.copyFrom g).2 = true ↔ (f.copyFrom g).1.get ≠ f.get := by
  have key : ∀ (es : List (Var × Value)) (f : Env) (c : Bool), (es.map (·.1)).Nodup →
      ((es.foldl (fun (s : Env × Bool) e =>
        ((s.1.update e.1 e.2).1, s.2 || (s.1.update e.1 e.2).2)) (f, c)).2 = true ↔
          c = true ∨ ∃ e ∈ es, f.get e.1 ≠ e.2) := by
    intro es
    induction es with
    | nil => simp
    | cons e es ih =>
        intro f c hnd
        rw [List.map_cons, List.nodup_cons] at hnd
        -- the variable does not occur again
        have hlater : ∀ d ∈ es, (f.set e.1 e.2).get d.1 = f.get d.1 := fun d hd =>
          get_set_ne f _ fun hq => hnd.1 (hq ▸ List.mem_map_of_mem (f := (·.1)) hd)
        rw [List.foldl_cons, ih _ _ hnd.2]
        simp only [update, Bool.or_eq_true, bne_iff_ne, or_assoc, List.exists_mem_cons_iff]
        refine or_congr_right (or_congr_right (exists_congr fun d => and_congr_right fun hd => ?_))
        rw [hlater d hd]
  have hbit : (f.copyFrom g).2 = true ↔ ∃ e ∈ g.entries, f.get e.1 ≠ e.2 :=
    (key g.entries f false g.nodup).trans (by simp)
  rw [hbit, Function.ne_iff]
  constructor
  · rintro ⟨e, he, hne⟩
    have hg := (mem_entries.mp he).1
    refine ⟨e.1, ?_⟩
    rw [get_copyFrom, if_neg (hg ▸ g.defined e he), hg]
    exact Ne.symm hne
  · rintro ⟨y, hy⟩
    rw [get_copyFrom] at hy
    by_cases hg : g.get y = .unassigned
    · exact absurd (if_pos hg) hy
    · rw [if_neg hg] at hy
      exact ⟨(y, g.get y), mem_entries.mpr ⟨rfl, hg⟩, Ne.symm hy⟩

/-- Environments are joined variable by variable. -/
theorem get_joinWith (f g : Env) (y : Var) : (f.joinWith g).get y = f.get y ⊔ g.get y := by
  have h := get_foldl_set Value.join f g y
  unfold joinWith
  rw [h]
  split
  · rename_i hg
    rw [hg]
    exact (sup_of_le_left (Value.unassigned_le _)).symm
  · rw [Value.join_eq_sup, sup_comm]

theorem joinWith_mono {f' g' : Env} (hf : f.get ≤ f'.get) (hg : g.get ≤ g'.get) :
    (f.joinWith g).get ≤ (f'.joinWith g').get := by
  intro y
  rw [get_joinWith, get_joinWith]
  exact sup_le_sup (hf y) (hg y)

/-- The values of a variable are joined in the order of the environments. -/
theorem get_foldl_joinWith (fs : List Env) (f : Env) (x : Var) :
    (fs.foldl joinWith f).get x = (fs.map (·.get x)).foldl Value.join (f.get x) := by
  induction fs generalizing f with
  | nil => rfl
  | cons f' fs ih =>
      rw [List.foldl_cons, ih, get_joinWith, List.map_cons, List.foldl_cons, Value.join_eq_sup]

/-- A join of several environments is the least one above them. -/
theorem foldl_joinWith_le_iff {fs : List Env} {m : Var → Value} :
    (fs.foldl joinWith f).get ≤ m ↔ f.get ≤ m ∧ ∀ f' ∈ fs, f'.get ≤ m := by
  induction fs generalizing f with
  | nil => simp
  | cons f' fs ih =>
      have hjoin : (f.joinWith f').get = f.get ⊔ f'.get := funext (get_joinWith f f')
      simp only [List.foldl_cons, ih, hjoin, sup_le_iff, List.forall_mem_cons, and_assoc]

/-! ## Comparing -/

theorem nodup_entries (f : Env) : f.entries.Nodup :=
  (List.pairwise_map.mp f.nodup).imp fun h hq => h (congrArg Prod.fst hq)

/-- **Environments pass for the same if they give every variable the same value.** -/
theorem same_iff : f.same g = true ↔ f.get = g.get := by
  unfold same
  rw [Bool.and_eq_true, beq_iff_eq, List.all_eq_true]
  constructor
  · rintro ⟨hsize, hall⟩
    have hsub : f.entries ⊆ g.entries := by
      rintro ⟨x, v⟩ he
      exact mem_entries.mpr ⟨by simpa using hall _ he, f.defined _ he⟩
    -- a sublist that is not shorter is all of it
    have hperm : f.entries.Perm g.entries :=
      (List.subperm_of_subset f.nodup_entries hsub).perm_of_length_le (Nat.le_of_eq hsize.symm)
    funext x
    exact get_eq_of_entries fun v => hperm.mem_iff
  · intro h
    have hperm : f.entries.Perm g.entries := by
      rw [List.perm_ext_iff_of_nodup f.nodup_entries g.nodup_entries]
      rintro ⟨x, v⟩
      rw [mem_entries, mem_entries, h]
    refine ⟨hperm.length_eq, ?_⟩
    rintro ⟨x, v⟩ he
    simpa [← h] using (mem_entries.mp he).1

end TacFlow.Env
