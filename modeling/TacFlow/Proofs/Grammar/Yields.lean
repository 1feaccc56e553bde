import TacFlow.Grammar.Production

/-!
# What rules read

A rule *yields* values with a property if everything that it reads has it, from whatever cursor it
starts. The property of a composed rule follows from those of its parts, so a fact about one
production is carried up the grammar to whole programs.

It is done here for calls: only the productions of a call make one, and they give it a receiver
exactly if it is not static.
-/

namespace TacFlow.Grammar

open Source

namespace Rule

variable {α β : Type} {P : α → Prop} {Q : β → Prop} {r s : Rule α}

/-- Everything that the rule reads has the property. -/
def Yields (r : Rule α) (P : α → Prop) : Prop :=
  ∀ c a c', (r c).result = some (a, c') → P a

theorem yields_pure {a : α} (h : P a) : (pure a : Rule α).Yields P := by
  intro c b c' hb
  cases hb
  exact h

/-- A rule that goes on with the value of another one. -/
theorem yields_bind {f : α → Rule β} (hr : r.Yields P) (hf : ∀ a, P a → (f a).Yields Q) :
    (r >>= f).Yields Q := by
  intro c b c' hb
  change (andThen r f c).result = some (b, c') at hb
  unfold andThen at hb
  split at hb
  · exact absurd hb (by simp)
  · rename_i n a d hd
    exact hf a (hr c a d (by rw [hd])) d b c' hb

/-- A rule whose first part does not matter. -/
theorem yields_then {f : α → Rule β} (hf : ∀ a, (f a).Yields Q) : (r >>= f).Yields Q :=
  yields_bind (P := fun _ => True) (fun _ _ _ _ => trivial) fun a _ => hf a

theorem yields_orElse (hr : r.Yields P) (hs : s.Yields P) : (r <|> s).Yields P := by
  intro c a c' ha
  change (orElse r (fun _ => s) c).result = some (a, c') at ha
  unfold orElse at ha
  split at ha
  · exact hs c a c' ha
  · exact hr c a c' ha

theorem yields_named (hr : r.Yields P) : r.named.Yields P := by
  intro c a c' ha
  unfold named at ha
  split at ha
  · exact absurd ha (by simp)
  · exact hr c a c' ha

/-- Every element of a repetition has the property of the repeated rule. -/
theorem yields_many (hr : r.Yields P) : (many r).Yields fun as => ∀ a ∈ as, P a := by
  have key : ∀ fuel, (manyWithin r fuel).Yields fun as => ∀ a ∈ as, P a := by
    intro fuel
    induction fuel with
    | zero => exact yields_pure (by simp)
    | succ fuel ih =>
        intro c as c' has
        unfold manyWithin at has
        split at has
        · cases has
          simp
        · split at has
          · cases has
            simp
          · rename_i n a d hd
            have ha : P a := hr c a d (by rw [hd])
            split at has
            · cases has
              simpa using ha
            · -- the rest of the repetition is read with less fuel
              obtain ⟨⟨rest, d'⟩, hrest, heq⟩ := Option.map_eq_some_iff.mp has
              obtain ⟨rfl, rfl⟩ : a :: rest = as ∧ d' = c' := by simpa using heq
              intro x hx
              rcases List.mem_cons.mp hx with rfl | hx
              · exact ha
              · exact ih d rest d' hrest x hx
  intro c as c' has
  exact key _ c as c' has

end Rule

end TacFlow.Grammar

/-! ## Calls -/

namespace TacFlow.Source

/-- A call has a receiver exactly if it is not static. -/
def Call.Received (c : Call) : Prop :=
  c.receiver.isSome = true ↔ c.kind ≠ .static

/-- Whatever a statement calls, it calls so. -/
def Action.Received : Action → Prop
  | .invoke _ c => c.Received
  | _ => True

/-- All calls in a part of a body are such. -/
def Item.Received : Item → Prop
  | .stmt s => s.action.Received
  | .locals _ _ _ => True

/-- All calls in the code of a method are such. -/
def Method.Received (m : Method) : Prop :=
  ∀ items, m.body = some items → ∀ i ∈ items, i.Received

end TacFlow.Source

namespace TacFlow.Grammar

open Source Rule

theorem yields_staticCall : staticCall.Yields Call.Received := by
  refine yields_named ?_
  repeat refine yields_then fun _ => ?_
  exact yields_pure (by simp [Call.Received])

theorem yields_instanceKind : instanceKind.Yields (· ≠ .static) := by
  refine yields_named (yields_orElse ?_ (yields_orElse ?_ ?_))
  all_goals
    refine yields_then fun _ => ?_
    exact yields_pure (by simp)

theorem yields_instanceCall : instanceCall.Yields Call.Received := by
  refine yields_named (yields_bind yields_instanceKind fun kind hkind => ?_)
  repeat refine yields_then fun _ => ?_
  exact yields_pure (by simp [Call.Received, hkind])

theorem yields_call : call.Yields Call.Received :=
  yields_named (yields_orElse yields_staticCall yields_instanceCall)

theorem yields_invokeStmt : invokeStmt.Yields Action.Received := by
  refine yields_named (yields_then fun result => yields_bind yields_call fun c hc => ?_)
  refine yields_then fun _ => ?_
  exact yields_pure hc

/-- The other statements hold no call. -/
theorem yields_action : action.Yields Action.Received := by
  refine yields_named (yields_orElse ?_ (yields_orElse ?_ (yields_orElse ?_ (yields_orElse ?_
    (yields_orElse ?_ (yields_orElse yields_invokeStmt ?_))))))
  all_goals
    refine yields_named ?_
    repeat refine yields_then fun _ => ?_
    exact yields_pure trivial

theorem yields_item : item.Yields Item.Received := by
  refine yields_named (yields_orElse (yields_named ?_) ?_)
  · repeat refine yields_then fun _ => ?_
    exact yields_pure trivial
  · have hstmt : stmt.Yields fun s => s.action.Received := by
      refine yields_named (yields_then fun _ => yields_then fun _ => ?_)
      exact yields_bind yields_action fun _ ha => yields_pure ha
    exact yields_bind hstmt fun _ hs => yields_pure hs

/-! ## Whole programs -/

section

variable {P : Item → Prop}

theorem yields_methodBody (hitem : item.Yields P) :
    methodBody.Yields fun body => ∀ items, body = some items → ∀ i ∈ items, P i := by
  have hblock : block.Yields fun items => ∀ i ∈ items, P i := by
    refine yields_named (yields_then fun _ => yields_bind (yields_many hitem) fun _ hi => ?_)
    exact yields_then fun _ => yields_pure hi
  refine yields_named (yields_orElse ?_ ?_)
  · exact yields_then fun _ => yields_pure (by simp)
  · refine yields_bind hblock fun items hitems => yields_pure ?_
    rintro _ ⟨⟩
    exact hitems

theorem yields_method (hitem : item.Yields P) :
    method.Yields fun m => ∀ items, m.body = some items → ∀ i ∈ items, P i := by
  refine yields_named ?_
  iterate 7 refine yields_then fun _ => ?_
  exact yields_bind (yields_methodBody hitem) fun body hbody => yields_pure hbody

theorem yields_classDecl (hitem : item.Yields P) : classDecl.Yields fun c =>
    ∀ m ∈ c.methods, ∀ items, m.body = some items → ∀ i ∈ items, P i := by
  refine yields_named ?_
  iterate 8 refine yields_then fun _ => ?_
  refine yields_bind (yields_many (yields_method hitem)) fun methods hmethods => ?_
  exact yields_then fun _ => yields_pure hmethods

/-- **What holds of every part of a body holds of all of them in a text that is read.** -/
theorem items_of_parse (hitem : item.Yields P) {text : List Char} {classes : List Source.Class}
    (h : parse text = .ok classes) : ∀ c ∈ classes, ∀ m ∈ c.methods, ∀ items, m.body = some items →
      ∀ i ∈ items, P i := by
  have hprogram : program.Yields fun classes => ∀ c ∈ classes, ∀ m ∈ c.methods, ∀ items,
      m.body = some items → ∀ i ∈ items, P i := by
    refine yields_named (yields_then fun _ => ?_)
    refine yields_bind (yields_many (yields_classDecl hitem)) fun classes hclasses => ?_
    exact yields_then fun _ => yields_pure hclasses
  unfold parse at h
  split at h
  · rename_i n read c hread
    cases h
    exact hprogram _ _ c (by rw [hread])
  · exact absurd h (by simp)

end

/-- **In every text that is read, a call has a receiver exactly if it is not static.** -/
theorem received_of_parse {text : List Char} {classes : List Source.Class}
    (h : parse text = .ok classes) : ∀ c ∈ classes, ∀ m ∈ c.methods, m.Received :=
  items_of_parse yields_item h

end TacFlow.Grammar
