import Mathlib.Data.List.Nodup
import TacFlow.Constant.Memory
import TacFlow.Proofs.Constant.Lookup

/-!
# Environments in memory

What an operation does to an object in place is what it does to an environment that is replaced by a new
one. No two objects hold the same dictionary, and this is the invariant that carries everything else: what
is done to one object leaves the others as they are. The one loop that runs over a dictionary while it is
changed, that of an object copied or joined into itself, finds each binding as it was, since it only ever
puts back what it has just read.
-/

namespace TacFlow

/-! ## Dictionaries of environments -/

namespace Dict

variable {v : Value}

theorem getD_get? (f : Env) (x : Var) : (Dict.get? f.entries x).getD .unassigned = f.get x :=
  rfl

theorem get?_entries (f : Env) (x : Var) :
    Dict.get? f.entries x = if f.get x = .unassigned then none else some (f.get x) := by
  cases hget : Dict.get? f.entries x with
  | none => rw [← getD_get?, hget]; rfl
  | some v =>
      obtain ⟨e, he, rfl⟩ := Option.map_eq_some_iff.mp hget
      have hv : e.2 ≠ .unassigned := f.defined e (List.mem_of_find?_eq_some he)
      rw [← getD_get?, hget, Option.getD_some, if_neg hv]

theorem put_entries (f : Env) (x : Var) (hv : v ≠ .unassigned) :
    Dict.put f.entries x v = (f.set x v).entries := by
  rw [Env.set, dif_neg hv, Dict.put, Env.insert]
  by_cases hx : f.contains x = true
  · rw [dif_pos hx]
    exact if_pos hx
  · rw [dif_neg hx]
    exact if_neg hx

/-- Dictionaries of environments are compared as the environments are. -/
theorem same_entries (f g : Env) : Dict.same f.entries g.entries = f.same g := by
  rw [Bool.eq_iff_iff]
  simp only [Dict.same, Env.same, Env.size, Bool.and_eq_true, List.all_eq_true, beq_iff_eq]
  refine and_congr_right fun _ => forall_congr' fun b => imp_congr_right fun hb => ?_
  rw [Dict.get?_entries]
  split
  · rename_i hget
    simp [hget, Ne.symm (f.defined b hb)]
  · exact Option.some_inj

end Dict

namespace Memory

variable {α β : Type} {m m' : Memory} {fs fs' : List Env} {f g : Env} {i j a size : Nat}
  {x : Var} {v : Value} {d : Dict}

/-! ## What computations end with -/

/-- A computation ends with a value and a memory for which something holds. -/
def Ensures (c : Work α) (m : Memory) (done : α → Memory → Prop) : Prop :=
  ∃ r m', c.run m = .ok (r, m') ∧ done r m'

section

variable {c : Work α} {k : α → Work β} {done done' : α → Memory → Prop}

@[simp] theorem ensures_pure {r : α} : Ensures (pure r) m done ↔ done r m := by
  constructor
  · rintro ⟨_, _, h, hdone⟩
    cases h
    exact hdone
  · exact fun h => ⟨r, m, rfl, h⟩

/-- What follows starts where the first computation ends. -/
theorem ensures_bind {done : β → Memory → Prop} (h : Ensures c m fun r m' => Ensures (k r) m' done) :
    Ensures (c >>= k) m done := by
  obtain ⟨r, m', hc, s, m'', hk, hdone⟩ := h
  refine ⟨s, m'', ?_, hdone⟩
  rw [StateT.run_bind, hc]
  exact hk

theorem Ensures.imp (h : Ensures c m done) (himp : ∀ r m', done r m' → done' r m') :
    Ensures c m done' := by
  obtain ⟨r, m', hc, hdone⟩ := h
  exact ⟨r, m', hc, himp r m' hdone⟩

theorem ensures_get {done : Memory → Memory → Prop} (h : done m m) :
    Ensures (get : Work Memory) m done :=
  ⟨m, m, rfl, h⟩

theorem ensures_discard {done : PUnit → Memory → Prop} (h : Ensures c m fun _ => done ⟨⟩) :
    Ensures (discard c) m done := by
  obtain ⟨r, m', hc, hdone⟩ := h
  refine ⟨⟨⟩, m', ?_, hdone⟩
  rw [Functor.discard, LawfulFunctor.map_const, Function.comp_apply, StateT.run_map, hc]
  rfl

end

theorem ensures_addressOf {done : Nat → Memory → Prop} (hi : m.objects[i]? = some a)
    (h : done a m) : Ensures (addressOf i) m done := by
  refine ensures_bind (ensures_get ?_)
  rw [hi]
  exact ensures_pure.mpr h

theorem ensures_dictAt {done : Dict → Memory → Prop} (ha : m.dicts[a]? = some d)
    (h : done d m) : Ensures (dictAt a) m done := by
  refine ensures_bind (ensures_get ?_)
  rw [ha]
  exact ensures_pure.mpr h

theorem ensures_setDict {done : Unit → Memory → Prop}
    (h : done () { m with dicts := m.dicts.set a d }) : Ensures (setDict a d) m done :=
  ⟨(), _, rfl, h⟩

theorem ensures_newDict {done : Nat → Memory → Prop}
    (h : done m.dicts.length { m with dicts := m.dicts ++ [d] }) : Ensures (newDict d) m done :=
  ⟨_, _, rfl, h⟩

theorem ensures_newObject {done : Nat → Memory → Prop}
    (h : done m.objects.length { m with objects := m.objects ++ [a] }) :
    Ensures (newObject a) m done :=
  ⟨_, _, rfl, h⟩

theorem ensures_hold {done : Unit → Memory → Prop}
    (h : done () { m with objects := m.objects.set i a }) : Ensures (hold i a) m done :=
  ⟨(), _, rfl, h⟩

/-- A loop over a dictionary that reads the same at every turn goes through its bindings. What each turn
passes on holds behind the loop. -/
theorem ensures_loop {body : β → Var × Value → Work β} {P : Nat → β → Memory → Prop} {acc : β}
    (hdict : ∀ n acc m, P n acc m → m.dicts[a]? = some d)
    (hturn : ∀ n b acc m, d[n]? = some b → P n acc m → Ensures (body acc b) m (P (n + 1)))
    (hstart : P 0 acc m) : Ensures (loop a body acc) m (P d.length) := by
  have hsteady : ∀ {n acc m} {done : Dict → Memory → Prop}, P n acc m → done d m →
      Ensures (steadyDict a d.length) m done := by
    intro n acc m done hP h
    refine ensures_bind (ensures_dictAt (hdict n acc m hP) ?_)
    rw [if_pos rfl]
    exact ensures_pure.mpr h
  have key : ∀ left next acc m, next + left = d.length → P next acc m →
      Ensures (turns a d.length body next left acc) m (P d.length) := by
    intro left
    induction left with
    | zero =>
        rintro next acc m rfl hP
        exact ensures_bind (hsteady hP (ensures_pure.mpr hP))
    | succ left ih =>
        intro next acc m hlen hP
        have hlt : next < d.length := by omega
        refine ensures_bind (hsteady hP ?_)
        rw [List.getElem?_eq_getElem hlt]
        refine ensures_bind ((hturn next _ acc m (List.getElem?_eq_getElem hlt) hP).imp ?_)
        exact fun acc' m' hP' => ih (next + 1) acc' m' (by omega) hP'
  exact ensures_bind (ensures_dictAt (hdict 0 acc m hstart) (key _ 0 acc m (Nat.zero_add _) hstart))

/-! ## The environments that stand in memory -/

/-- The objects of a memory hold the bindings of some environments, each in a dictionary of its own. -/
structure Represents (m : Memory) (fs : List Env) : Prop where
  nodup : m.objects.Nodup
  contents : m.objects.map (m.dicts[·]?) = fs.map fun f => some f.entries

theorem represents_empty : Represents empty [] :=
  ⟨List.nodup_nil, rfl⟩

namespace Represents

theorem length_eq (h : Represents m fs) : m.objects.length = fs.length := by
  simpa using congrArg List.length h.contents

theorem exists_address (h : Represents m fs) (hi : fs[i]? = some f) :
    ∃ a, m.objects[i]? = some a ∧ m.dicts[a]? = some f.entries := by
  have hcontents := congrArg (·[i]?) h.contents
  simpa [hi] using hcontents

theorem dict (h : Represents m fs) (hi : fs[i]? = some f) (ha : m.objects[i]? = some a) :
    m.dicts[a]? = some f.entries := by
  obtain ⟨a', ha', hdict⟩ := h.exists_address hi
  rwa [Option.some.inj (ha.symm.trans ha')]

theorem lt_of_mem (h : Represents m fs) (ha : a ∈ m.objects) : a < m.dicts.length := by
  have hmem := List.mem_map_of_mem (f := (m.dicts[·]?)) ha
  rw [h.contents] at hmem
  obtain ⟨f, _, hf⟩ := List.mem_map.mp hmem
  exact (List.getElem?_eq_some_iff.mp hf.symm).1

theorem defined (h : Represents m fs) (ha : a ∈ m.objects) (hd : m.dicts[a]? = some d)
    {b : Var × Value} (hb : b ∈ d) : b.2 ≠ .unassigned := by
  have hmem := List.mem_map_of_mem (f := (m.dicts[·]?)) ha
  rw [h.contents, hd] at hmem
  obtain ⟨f, _, hf⟩ := List.mem_map.mp hmem
  exact f.defined b (Option.some.inj hf ▸ hb)

/-- A change of the dictionary of one object is a change of that object alone. -/
theorem setDict (h : Represents m fs) (hi : fs[i]? = some f) (ha : m.objects[i]? = some a) (g : Env) :
    Represents { m with dicts := m.dicts.set a g.entries } (fs.set i g) where
  nodup := h.nodup
  contents := by
    refine List.ext_getElem? fun j => ?_
    have hj := congrArg (·[j]?) h.contents
    simp only [List.getElem?_map] at hj ⊢
    by_cases hij : i = j
    · subst hij
      have hlt := h.lt_of_mem (List.mem_of_getElem? ha)
      have hlen : i < fs.length := (List.getElem?_eq_some_iff.mp hi).1
      simp [ha, hlt, hlen]
    · rw [List.getElem?_set_ne hij, ← hj]
      cases hb : m.objects[j]? with
      | none => rfl
      | some b =>
          have hab : a ≠ b := by
            rintro rfl
            exact hij ((List.getElem?_inj (List.getElem?_eq_some_iff.mp ha).1 h.nodup).mp (ha.trans hb.symm))
          simp [hab]

/-- A dictionary that no object holds is of no account. -/
theorem newDict (h : Represents m fs) (d : Dict) :
    Represents { m with dicts := m.dicts ++ [d] } fs where
  nodup := h.nodup
  contents := by
    rw [← h.contents]
    exact List.map_congr_left fun a ha => List.getElem?_append_left (h.lt_of_mem ha)

/-- A new object with a dictionary of its own comes in behind the others. -/
theorem newObject (h : Represents m fs) (f : Env) :
    Represents ⟨m.dicts ++ [f.entries], m.objects ++ [m.dicts.length]⟩ (fs ++ [f]) where
  nodup := by
    refine h.nodup.append (List.nodup_singleton _) ?_
    simpa using fun hmem => Nat.lt_irrefl _ (h.lt_of_mem hmem)
  contents := by
    rw [List.map_append, List.map_append, (h.newDict f.entries).contents]
    simp

/-! ## What objects do is what environments do -/

theorem ensures_valueOf {done : Value → Memory → Prop} (h : Represents m fs) (hi : fs[i]? = some f)
    (hdone : done (f.get x) m) : Ensures (valueOf i x) m done := by
  obtain ⟨a, ha, hd⟩ := h.exists_address hi
  exact ensures_bind (ensures_addressOf ha (ensures_bind (ensures_dictAt hd (ensures_pure.mpr hdone))))

theorem ensures_equal (h : Represents m fs) (hi : fs[i]? = some f) (hj : fs[j]? = some g) :
    Ensures (equal i j) m fun b m' => b = f.same g ∧ m' = m := by
  obtain ⟨a, ha, hd⟩ := h.exists_address hi
  obtain ⟨a', ha', hd'⟩ := h.exists_address hj
  refine ensures_bind (ensures_addressOf ha (ensures_bind (ensures_dictAt hd ?_)))
  refine ensures_bind (ensures_addressOf ha' (ensures_bind (ensures_dictAt hd' ?_)))
  exact ensures_pure.mpr ⟨Dict.same_entries f g, rfl⟩

/-- The objects stay, and they are other environments now. -/
structure Becomes (m : Memory) (fs : List Env) (m' : Memory) : Prop where
  objects : m'.objects = m.objects
  represents : Represents m' fs

theorem becomes_setDict (h : Represents m fs) (hi : fs[i]? = some f) (ha : m.objects[i]? = some a)
    (g : Env) : Becomes m (fs.set i g) { m with dicts := m.dicts.set a g.entries } :=
  ⟨rfl, h.setDict hi ha g⟩

theorem ensures_update (h : Represents m fs) (hi : fs[i]? = some f) (x : Var) (v : Value) :
    Ensures (update i x v) m fun changed m' =>
      changed = (f.update x v).2 ∧ Becomes m (fs.set i (f.update x v).1) m' := by
  obtain ⟨a, ha, hd⟩ := h.exists_address hi
  refine ensures_bind (ensures_addressOf ha (ensures_bind (ensures_dictAt hd ?_)))
  have hbecomes := h.becomes_setDict hi ha (f.set x v)
  by_cases hv : v = .unassigned
  · rw [if_pos hv]
    subst hv
    refine ensures_bind (ensures_setDict (ensures_pure.mpr ⟨?_, hbecomes⟩))
    rw [Dict.get?_entries]
    by_cases hx : f.get x = .unassigned <;> simp [Env.update, hx]
  · rw [if_neg hv]
    refine ensures_bind (ensures_setDict (ensures_pure.mpr ⟨?_, ?_⟩))
    · rw [Bool.eq_iff_iff, bne_iff_ne, Env.update, bne_iff_ne, Dict.get?_entries]
      by_cases hx : f.get x = .unassigned
      · simp [hx, Ne.symm hv]
      · simp [hx]
    · rw [Dict.put_entries f x hv]
      exact hbecomes

theorem ensures_remove (h : Represents m fs) (hi : fs[i]? = some f) (x : Var) :
    Ensures (remove i x) m fun had m' =>
      had = (f.remove x).2 ∧ Becomes m (fs.set i (f.remove x).1) m' := by
  obtain ⟨a, ha, hd⟩ := h.exists_address hi
  refine ensures_bind (ensures_addressOf ha (ensures_bind (ensures_dictAt hd ?_)))
  exact ensures_bind (ensures_setDict (ensures_pure.mpr ⟨rfl, h.becomes_setDict hi ha (f.erase x)⟩))

theorem ensures_clear (h : Represents m fs) (hi : fs[i]? = some f) :
    Ensures (clear i) m fun _ m' => Becomes m (fs.set i .empty) m' := by
  obtain ⟨a, ha, _⟩ := h.exists_address hi
  exact ensures_bind (ensures_addressOf ha (ensures_setDict (h.becomes_setDict hi ha .empty)))

/-- A loop over the bindings of an object that changes another object, or the object itself if each of
its bindings leaves it as it is. -/
theorem ensures_loop {body : β → Var × Value → Work β} {acc : β} (h : Represents m fs)
    (step : Env × β → Var × Value → Env × β) (hi : fs[i]? = some f) (hj : fs[j]? = some g)
    (ha : m.objects[j]? = some a) (hself : i = j → ∀ b ∈ g.entries, ∀ acc, (step (f, acc) b).1 = f)
    (hbody : ∀ e acc b m', Represents m' (fs.set i e) → (fs.set i e)[i]? = some e →
      Ensures (body acc b) m' fun acc' m'' =>
        acc' = (step (e, acc) b).2 ∧ Becomes m' ((fs.set i e).set i (step (e, acc) b).1) m'') :
    Ensures (loop a body acc) m fun acc' m' =>
      acc' = (g.entries.foldl step (f, acc)).2 ∧
        Becomes m (fs.set i (g.entries.foldl step (f, acc)).1) m' := by
  -- what the turns up to the `n`th one make of the object and of the accumulator
  let part : Nat → Env × β := fun n => (g.entries.take n).foldl step (f, acc)
  have hpart : ∀ {n b}, g.entries[n]? = some b → part (n + 1) = step (part n) b := by
    intro n b hb
    change (g.entries.take (n + 1)).foldl step (f, acc) = _
    rw [List.take_add_one, hb, Option.toList_some, List.foldl_append, List.foldl_cons, List.foldl_nil]
  have hsame : ∀ n, i = j → (part n).1 = f := by
    intro n hij
    refine List.foldlRecOn (motive := fun s : Env × β => s.1 = f) _ _ rfl ?_
    rintro ⟨_, acc'⟩ rfl b hb
    exact hself hij b (List.mem_of_mem_take hb) acc'
  have hlen : i < fs.length := (List.getElem?_eq_some_iff.mp hi).1
  -- so the dictionary that the loop goes through reads the same at every turn
  have hget : ∀ n, (fs.set i (part n).1)[j]? = some g := by
    intro n
    by_cases hij : i = j
    · rw [hsame n hij, ← hj, ← hij, List.getElem?_set_self hlen, hi]
    · rw [List.getElem?_set_ne hij, hj]
  have hloop : Ensures (loop a body acc) m fun acc' m' =>
      acc' = (part g.entries.length).2 ∧ Becomes m (fs.set i (part g.entries.length).1) m' := by
    refine Memory.ensures_loop (d := g.entries)
      (P := fun n acc' m' => acc' = (part n).2 ∧ Becomes m (fs.set i (part n).1) m') ?_ ?_ ?_
    · rintro n acc' m' ⟨_, hm'⟩
      exact hm'.represents.dict (hget n) (hm'.objects ▸ ha)
    · rintro n b acc' m' hb ⟨rfl, hm'⟩
      refine (hbody (part n).1 (part n).2 b m' hm'.represents ?_).imp ?_
      · rw [List.getElem?_set_self hlen]
      · rintro acc'' m'' ⟨rfl, hm''⟩
        rw [hpart hb]
        refine ⟨rfl, hm''.objects.trans hm'.objects, ?_⟩
        simpa only [List.set_set] using hm''.represents
    · refine ⟨rfl, rfl, ?_⟩
      obtain ⟨_, rfl⟩ := List.getElem?_eq_some_iff.mp hi
      change Represents m (fs.set i fs[i])
      rwa [List.set_getElem_self]
  simpa only [part, List.take_length] using hloop

theorem ensures_copyFrom (h : Represents m fs) (hi : fs[i]? = some f) (hj : fs[j]? = some g) :
    Ensures (copyFrom i j) m fun changed m' =>
      changed = (f.copyFrom g).2 ∧ Becomes m (fs.set i (f.copyFrom g).1) m' := by
  obtain ⟨a, ha, _⟩ := h.exists_address hj
  refine ensures_bind (ensures_addressOf ha (h.ensures_loop _ hi hj ha ?_ ?_))
  · -- a binding of its own is there already
    rintro rfl ⟨x, v⟩ hb acc
    obtain rfl : f = g := Option.some.inj (hi.symm.trans hj)
    exact Env.set_of_mem hb
  · rintro e acc ⟨x, v⟩ m' hm' he
    refine ensures_bind ((hm'.ensures_update he x v).imp ?_)
    rintro changed m'' ⟨rfl, hm''⟩
    exact ensures_pure.mpr ⟨rfl, hm''⟩

theorem ensures_joinInto (h : Represents m fs) (hi : fs[i]? = some f) (hj : fs[j]? = some g) :
    Ensures (joinInto i j) m fun _ m' => Becomes m (fs.set j (g.joinWith f)) m' := by
  obtain ⟨a, ha, _⟩ := h.exists_address hi
  let step : Env × Unit → Var × Value → Env × Unit :=
    fun s b => (s.1.set b.1 (b.2.join (s.1.get b.1)), ())
  have hfold : (f.entries.foldl step (g, ())).1 = g.joinWith f :=
    (List.foldl_hom Prod.fst fun _ _ => rfl).symm
  refine ensures_bind (ensures_addressOf ha ?_)
  refine (h.ensures_loop step hj hi ha ?_ ?_).imp fun _ m' hm' => hfold ▸ hm'.2
  · -- the join of a value with itself is there already
    rintro rfl ⟨x, v⟩ hb _
    obtain rfl : f = g := Option.some.inj (hi.symm.trans hj)
    have hv : v.join (f.get x) = v := by
      rw [(Env.mem_entries.mp hb).1, Value.join_eq_sup, sup_idem]
    change f.set x (v.join (f.get x)) = f
    rw [hv, Env.set_of_mem hb]
  · rintro e ⟨⟩ ⟨x, v⟩ m' hm' he
    refine ensures_bind (hm'.ensures_valueOf he (ensures_discard ?_))
    exact (hm'.ensures_update he x (v.join (e.get x))).imp fun _ m'' hm'' => ⟨rfl, hm''.2⟩

theorem ensures_create (h : Represents m fs) (bindings : Dict) :
    Ensures (create bindings) m fun i m' =>
      i = fs.length ∧ Represents m' (fs ++ [.ofList bindings]) := by
  -- each binding changes the new object, which stands behind the others
  have hbindings : ∀ (bindings : Dict) (e : Env) (m : Memory), Represents m (fs ++ [e]) →
      Ensures (bindings.forM fun b => discard <| update fs.length b.1 b.2) m fun _ m' =>
        Represents m' (fs ++ [bindings.foldl (fun f b => f.set b.1 b.2) e]) := by
    intro bindings
    induction bindings with
    | nil => exact fun e m hm => ensures_pure.mpr hm
    | cons b bindings ih =>
        intro e m hm
        refine ensures_bind (ensures_discard ?_)
        refine (hm.ensures_update List.getElem?_concat_length b.1 b.2).imp ?_
        rintro _ m' ⟨-, hm'⟩
        refine ih (e.set b.1 b.2) m' ?_
        simpa [Env.update] using hm'.represents
  refine ensures_bind (ensures_newDict (ensures_bind (ensures_newObject (ensures_bind ?_))))
  rw [h.length_eq]
  refine (hbindings bindings .empty _ (h.newObject .empty)).imp fun _ m' hm' => ?_
  exact ensures_pure.mpr ⟨rfl, hm'⟩

theorem ensures_copy (h : Represents m fs) (hi : fs[i]? = some f) :
    Ensures (copy i) m fun j m' => j = fs.length ∧ Represents m' (fs ++ [f]) := by
  obtain ⟨a, ha, hd⟩ := h.exists_address hi
  have hd' : (m.dicts ++ [[]])[a]? = some f.entries := by
    rw [List.getElem?_append_left (List.getElem?_eq_some_iff.mp hd).1, hd]
  refine ensures_bind (ensures_addressOf ha (ensures_bind (ensures_newDict ?_)))
  refine ensures_bind (ensures_newObject (ensures_bind (ensures_dictAt hd' ?_)))
  refine ensures_bind (ensures_newDict (ensures_bind (ensures_hold (ensures_pure.mpr ?_))))
  refine ⟨h.length_eq, ?_⟩
  -- the empty dictionary that it held at first is held by nothing any more
  simpa using (h.newDict []).newObject f

end Represents

end Memory

end TacFlow
