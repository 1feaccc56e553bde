import TacFlow.Proofs.Constant.Memory

/-!
# Sequences of operations on environments

Whatever is done with objects that are changed in place, they are at all times the environments that the
same operations give when each of them replaces an environment by a new one, and those are functions from
variables to values that change at the variables that an operation is about and nowhere else.
-/

namespace TacFlow.Memory

variable {m : Memory} {fs fs' : List Env} {f g : Env} {i j a : Nat} {d : Dict}

/-! ## Sequences of operations -/

namespace Op

/-- The object that an operation changes. -/
def target : Op → Option Nat
  | new _ | copy _ => none
  | update i _ _ | remove i _ | copyFrom i _ | clear i => some i
  | joinInto _ j => some j

/-- The objects that an operation names. -/
def names : Op → List Nat
  | new _ => []
  | update i _ _ | remove i _ | copy i | clear i => [i]
  | copyFrom i j | joinInto i j => [i, j]

/-- How many objects there are after an operation, where there are `n` before. -/
def count (n : Nat) : Op → Nat
  | new _ | copy _ => n + 1
  | _ => n

end Op

/-- Operations that name only objects that are there by then, where there are `n` at first. -/
def Scoped : Nat → List Op → Prop
  | _, [] => True
  | n, op :: ops => (∀ i ∈ op.names, i < n) ∧ Scoped (op.count n) ops

/-- Operations one after another, given what each of them does to a state and answers. -/
inductive Steps {σ : Type} (step : σ → Op → Answer → σ → Prop) :
    σ → List Op → List Answer → σ → Prop
  | nil {s : σ} : Steps step s [] [] s
  | cons {s s' s'' : σ} {op : Op} {ops : List Op} {answer : Answer} {answers : List Answer} :
    step s op answer s' → Steps step s' ops answers s'' →
    Steps step s (op :: ops) (answer :: answers) s''

/-- What an operation does to environments, each of which is replaced by a new one. -/
inductive Replaces (fs : List Env) : Op → Answer → List Env → Prop
  | new (bindings : Dict) :
    Replaces fs (.new bindings) (.made fs.length) (fs ++ [.ofList bindings])
  | update {i : Nat} {f : Env} (x : Var) (v : Value) : fs[i]? = some f →
    Replaces fs (.update i x v) (.changed (f.update x v).2) (fs.set i (f.update x v).1)
  | remove {i : Nat} {f : Env} (x : Var) : fs[i]? = some f →
    Replaces fs (.remove i x) (.had (f.remove x).2) (fs.set i (f.remove x).1)
  | copyFrom {i j : Nat} {f g : Env} : fs[i]? = some f → fs[j]? = some g →
    Replaces fs (.copyFrom i j) (.changed (f.copyFrom g).2) (fs.set i (f.copyFrom g).1)
  | joinInto {i j : Nat} {f g : Env} : fs[i]? = some f → fs[j]? = some g →
    Replaces fs (.joinInto i j) .done (fs.set j (g.joinWith f))
  | copy {i : Nat} {f : Env} : fs[i]? = some f →
    Replaces fs (.copy i) (.made fs.length) (fs ++ [f])
  | clear {i : Nat} {f : Env} : fs[i]? = some f →
    Replaces fs (.clear i) .done (fs.set i .empty)

variable {op : Op} {ops before after : List Op} {answer : Answer} {answers : List Answer}

/-- Each operation does in memory what it does to the environments that stand there. -/
theorem Represents.ensures_perform (h : Represents m fs) (hop : Replaces fs op answer fs') :
    Ensures (perform op) m fun r m' => r = answer ∧ Represents m' fs' := by
  cases hop with
  | new bindings =>
      refine ensures_bind ((h.ensures_create bindings).imp ?_)
      rintro _ m' ⟨rfl, hm'⟩
      exact ensures_pure.mpr ⟨rfl, hm'⟩
  | update x v hi =>
      refine ensures_bind ((h.ensures_update hi x v).imp ?_)
      rintro _ m' ⟨rfl, hm'⟩
      exact ensures_pure.mpr ⟨rfl, hm'.represents⟩
  | remove x hi =>
      refine ensures_bind ((h.ensures_remove hi x).imp ?_)
      rintro _ m' ⟨rfl, hm'⟩
      exact ensures_pure.mpr ⟨rfl, hm'.represents⟩
  | copyFrom hi hj =>
      refine ensures_bind ((h.ensures_copyFrom hi hj).imp ?_)
      rintro _ m' ⟨rfl, hm'⟩
      exact ensures_pure.mpr ⟨rfl, hm'.represents⟩
  | joinInto hi hj =>
      refine ensures_bind ((h.ensures_joinInto hi hj).imp ?_)
      exact fun _ m' hm' => ensures_pure.mpr ⟨rfl, hm'.represents⟩
  | copy hi =>
      refine ensures_bind ((h.ensures_copy hi).imp ?_)
      rintro _ m' ⟨rfl, hm'⟩
      exact ensures_pure.mpr ⟨rfl, hm'⟩
  | clear hi =>
      refine ensures_bind ((h.ensures_clear hi).imp ?_)
      exact fun _ m' hm' => ensures_pure.mpr ⟨rfl, hm'.represents⟩

theorem Represents.ensures_performAll (h : Represents m fs)
    (hops : Steps Replaces fs ops answers fs') :
    Ensures (performAll ops) m fun r m' => r = answers ∧ Represents m' fs' := by
  induction hops generalizing m with
  | nil => exact ensures_pure.mpr ⟨rfl, h⟩
  | cons hop _ ih =>
      refine ensures_bind ((h.ensures_perform hop).imp ?_)
      rintro _ m' ⟨rfl, hm'⟩
      refine ensures_bind ((ih hm').imp ?_)
      rintro _ m'' ⟨rfl, hm''⟩
      exact ensures_pure.mpr ⟨rfl, hm''⟩

/-- An operation can be done if the objects that it names are there. -/
theorem exists_replaces (h : ∀ i ∈ op.names, i < fs.length) :
    ∃ answer fs', Replaces fs op answer fs' ∧ fs'.length = op.count fs.length := by
  have hget : ∀ i ∈ op.names, fs[i]? = some (fs[i]?.getD .empty) := by
    intro i hi
    rw [List.getElem?_eq_getElem (h i hi), Option.getD_some]
  cases op with
  | new bindings => exact ⟨_, _, .new bindings, by simp [Op.count]⟩
  | update i x v => exact ⟨_, _, .update x v (hget i (by simp [Op.names])), by simp [Op.count]⟩
  | remove i x => exact ⟨_, _, .remove x (hget i (by simp [Op.names])), by simp [Op.count]⟩
  | copyFrom i j =>
      exact ⟨_, _, .copyFrom (hget i (by simp [Op.names])) (hget j (by simp [Op.names])),
        by simp [Op.count]⟩
  | joinInto i j =>
      exact ⟨_, _, .joinInto (hget i (by simp [Op.names])) (hget j (by simp [Op.names])),
        by simp [Op.count]⟩
  | copy i => exact ⟨_, _, .copy (hget i (by simp [Op.names])), by simp [Op.count]⟩
  | clear i => exact ⟨_, _, .clear (hget i (by simp [Op.names])), by simp [Op.count]⟩

theorem exists_steps (h : Scoped fs.length ops) :
    ∃ answers fs', Steps Replaces fs ops answers fs' := by
  induction ops generalizing fs with
  | nil => exact ⟨[], fs, .nil⟩
  | cons op ops ih =>
      obtain ⟨answer, fs₁, hop, hlen⟩ := exists_replaces h.1
      obtain ⟨answers, fs₂, hops⟩ := ih (hlen ▸ h.2)
      exact ⟨_, fs₂, .cons hop hops⟩

theorem Steps.exists_of_append {σ : Type} {step : σ → Op → Answer → σ → Prop} {s s'' : σ}
    (h : Steps step s (before ++ after) answers s'') :
    ∃ s' front back, Steps step s before front s' ∧ Steps step s' after back s'' := by
  induction before generalizing s answers with
  | nil => exact ⟨s, [], answers, .nil, h⟩
  | cons op before ih =>
      cases h with
      | cons hop hops =>
          obtain ⟨s', front, back, hfront, hback⟩ := ih hops
          exact ⟨s', _, back, .cons hop hfront, hback⟩

/-- An operation leaves all objects but its target as they are. -/
theorem Replaces.getElem?_eq (h : Replaces fs op answer fs') (htarget : op.target ≠ some i)
    (hi : i < fs.length) : fs'[i]? = fs[i]? := by
  have hset : ∀ {j} (g : Env), some j ≠ some i → (fs.set j g)[i]? = fs[i]? := fun g hne =>
    List.getElem?_set_ne fun hq => hne (congrArg some hq)
  cases h with
  | new | copy => exact List.getElem?_append_left hi
  | update | remove | copyFrom | joinInto | clear => exact hset _ htarget

theorem Steps.getElem?_eq (h : Steps Replaces fs ops answers fs')
    (hops : ∀ op ∈ ops, op.target ≠ some i) (hi : fs[i]? = some f) : fs'[i]? = some f := by
  induction h with
  | nil => exact hi
  | cons hop _ ih =>
      obtain ⟨hfirst, hrest⟩ := List.forall_mem_cons.mp hops
      have hlt := (List.getElem?_eq_some_iff.mp hi).1
      exact ih hrest ((hop.getElem?_eq hfirst hlt).trans hi)

/-! ## Functions from variables to values -/

/-- The function that is another one wherever that is not `unassigned`. -/
def overwrite (e e' : Var → Value) (x : Var) : Value :=
  if e' x = .unassigned then e x else e' x

/-- What an operation does to functions from variables to values, and what it answers. -/
inductive Acts (es : List (Var → Value)) : Op → Answer → List (Var → Value) → Prop
  | new (bindings : Dict) : Acts es (.new bindings) (.made es.length)
      (es ++ [bindings.foldl (fun e b => Function.update e b.1 b.2) fun _ => .unassigned])
  | update {i : Nat} {e : Var → Value} {x : Var} {v : Value} {b : Bool} : es[i]? = some e →
    (b = true ↔ Function.update e x v ≠ e) →
    Acts es (.update i x v) (.changed b) (es.set i (Function.update e x v))
  | remove {i : Nat} {e : Var → Value} {x : Var} : es[i]? = some e →
    Acts es (.remove i x) (.had (e x)) (es.set i (Function.update e x .unassigned))
  | copyFrom {i j : Nat} {e e' : Var → Value} {b : Bool} : es[i]? = some e → es[j]? = some e' →
    (b = true ↔ overwrite e e' ≠ e) →
    Acts es (.copyFrom i j) (.changed b) (es.set i (overwrite e e'))
  | joinInto {i j : Nat} {e e' : Var → Value} : es[i]? = some e → es[j]? = some e' →
    Acts es (.joinInto i j) .done (es.set j fun x => (e x).join (e' x))
  | copy {i : Nat} {e : Var → Value} : es[i]? = some e →
    Acts es (.copy i) (.made es.length) (es ++ [e])
  | clear {i : Nat} {e : Var → Value} : es[i]? = some e →
    Acts es (.clear i) .done (es.set i fun _ => .unassigned)

theorem get_copyFrom_eq_overwrite (f g : Env) : (f.copyFrom g).1.get = overwrite f.get g.get :=
  funext (Env.get_copyFrom f g)

/-- Replacing environments is acting on the functions that they are. -/
theorem Replaces.acts (h : Replaces fs op answer fs') :
    Acts (fs.map Env.get) op answer (fs'.map Env.get) := by
  have hget : ∀ {i : Nat} {f : Env}, fs[i]? = some f → (fs.map Env.get)[i]? = some f.get := fun hi => by
    rw [List.getElem?_map, hi, Option.map_some]
  cases h with
  | new bindings =>
      rw [List.map_append, List.map_singleton, Env.get_ofList, ← List.length_map Env.get]
      exact .new bindings
  | @update i f x v hi =>
      rw [List.map_set, Env.update, Env.get_set_eq_update]
      refine .update (hget hi) ?_
      rw [bne_iff_ne, Function.update_ne_self_iff, ne_comm]
  | @remove i f x hi =>
      rw [List.map_set, Env.remove, ← Env.set_unassigned, Env.get_set_eq_update]
      exact .remove (hget hi)
  | @copyFrom i j f g hi hj =>
      rw [List.map_set, get_copyFrom_eq_overwrite]
      refine .copyFrom (hget hi) (hget hj) ?_
      rw [Env.copyFrom_snd_iff, get_copyFrom_eq_overwrite]
  | @joinInto i j f g hi hj =>
      have hjoin : (g.joinWith f).get = fun x => (f.get x).join (g.get x) := funext fun x => by
        rw [Env.get_joinWith, Value.join_eq_sup, sup_comm]
      rw [List.map_set, hjoin]
      exact .joinInto (hget hi) (hget hj)
  | @copy i f hi =>
      rw [List.map_append, List.map_singleton, ← List.length_map Env.get]
      exact .copy (hget hi)
  | @clear i f hi =>
      rw [List.map_set]
      exact .clear (hget hi)

theorem Steps.acts (h : Steps Replaces fs ops answers fs') :
    Steps Acts (fs.map Env.get) ops answers (fs'.map Env.get) := by
  induction h with
  | nil => exact .nil
  | cons hop _ ih => exact .cons hop.acts ih

/-! ## What objects promise -/

/-- What a sequence of operations that starts without any objects leaves in memory: environments that
the objects hold. -/
structure Refines (ops : List Op) (answers : List Answer) (m : Memory) (fs : List Env) : Prop where
  /-- They are what the operations make of environments that are replaced. -/
  replaces : Steps Replaces [] ops answers fs
  /-- The operations do to them, and answer, what they do to functions from variables to values. -/
  acts : Steps Acts [] ops answers (fs.map Env.get)
  /-- An object for each of them. -/
  length_eq : m.objects.length = fs.length
  /-- Objects read as their functions. -/
  valueOf {i : Nat} {f : Env} (x : Var) : fs[i]? = some f →
    (Memory.valueOf i x).run m = .ok (f.get x, m)
  /-- No object stores that a variable is unassigned. -/
  defined {a : Nat} {d : Dict} : a ∈ m.objects → m.dicts[a]? = some d → ∀ b ∈ d, b.2 ≠ .unassigned
  /-- Objects are equal exactly if their functions are. -/
  equal {i j : Nat} {f g : Env} : fs[i]? = some f → fs[j]? = some g →
    ∃ b, (Memory.equal i j).run m = .ok (b, m) ∧ (b = true ↔ f.get = g.get)
  /-- What an object holds before some of the operations it holds behind them, unless one of them
  changes this very object: so does a copy whose original is changed, and the original of a copy. -/
  keeps {before after : List Op} : ops = before ++ after → ∃ front m' fs',
    (performAll before).run empty = .ok (front, m') ∧ Represents m' fs' ∧
      ∀ i f, fs'[i]? = some f → (∀ op ∈ after, op.target ≠ some i) → fs[i]? = some f

/-- **Objects that are changed in place refine functions from variables to values**, whatever is done
with them in whatever order, also with an object and itself. -/
theorem refines_performAll (hops : Scoped 0 ops) :
    ∃ answers m fs, (performAll ops).run empty = .ok (answers, m) ∧ Refines ops answers m fs := by
  obtain ⟨answers, fs, hsteps⟩ := exists_steps (show Scoped ([] : List Env).length ops from hops)
  obtain ⟨_, m, hrun, rfl, hm⟩ := represents_empty.ensures_performAll hsteps
  refine ⟨_, m, fs, hrun, hsteps, hsteps.acts, hm.length_eq, ?_, hm.defined, ?_, ?_⟩
  · intro i f x hi
    have hvalue : Ensures (Memory.valueOf i x) m fun v m' => v = f.get x ∧ m' = m :=
      hm.ensures_valueOf hi ⟨rfl, rfl⟩
    obtain ⟨_, _, hrun, rfl, rfl⟩ := hvalue
    exact hrun
  · intro i j f g hi hj
    obtain ⟨_, _, hequal, rfl, rfl⟩ := hm.ensures_equal hi hj
    exact ⟨_, hequal, Env.same_iff⟩
  · rintro before after rfl
    obtain ⟨fs', front, back, hfront, hback⟩ := hsteps.exists_of_append
    obtain ⟨_, m', hrun', rfl, hm'⟩ := represents_empty.ensures_performAll hfront
    exact ⟨_, m', fs', hrun', hm', fun i f hi htarget => hback.getElem?_eq htarget hi⟩

/-- Two objects, the second a copy of the first, which are then changed, joined and copied into each
other and into themselves. -/
def mingling : List Op :=
  let x : Var := ⟨0, "x", .primitive .int⟩
  let y : Var := ⟨1, "y", .primitive .int⟩
  [.new [(x, .const 1), (y, .unassigned)], .copy 0, .update 0 x (.const 2), .update 0 y (.const 3),
    .joinInto 0 0, .copyFrom 1 1, .joinInto 0 1, .copyFrom 0 1, .remove 1 y, .clear 0, .copyFrom 1 0]

theorem refines_performAll_mingling :
    Scoped 0 mingling ∧ ∃ m fs,
      (performAll mingling).run empty = .ok ([.made 0, .made 1, .changed true, .changed true, .done,
        .changed false, .done, .changed true, .had (.const 3), .done, .changed false], m) ∧
      Refines mingling [.made 0, .made 1, .changed true, .changed true, .done,
        .changed false, .done, .changed true, .had (.const 3), .done, .changed false] m fs := by
  have hscoped : Scoped 0 mingling := by simp [mingling, Scoped, Op.names, Op.count]
  have hanswers : ((performAll mingling).run empty).map Prod.fst = .ok [.made 0, .made 1,
      .changed true, .changed true, .done, .changed false, .done, .changed true, .had (.const 3), .done,
      .changed false] := by
    decide +kernel
  obtain ⟨answers, m, fs, hrun, hrefines⟩ := refines_performAll hscoped
  rw [hrun] at hanswers
  obtain rfl := Except.ok.inj hanswers
  exact ⟨hscoped, m, fs, hrun, hrefines⟩

end TacFlow.Memory
