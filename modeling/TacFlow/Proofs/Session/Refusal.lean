import TacFlow.CommandLine.Outcome
import TacFlow.Proofs.Session.Consistency

/-!
# Written plans that are refused

A decoded plan is read from its entries in order, and the first one that cannot be read decides. The shape
of the plan, the shape of an entry, the name of the analysis and its options are each looked at, and what is
wrong with them is a refusal. Only the id of an entry is never asked for its shape: where it is an array or
an object nothing can be looked up by it, and reading breaks down instead. No other value in any place of a
plan does that, so reading settles a plan exactly if it does not come upon such an id.
-/

namespace TacFlow

/-! ## Ids -/

/-- An array or an object. -/
inductive Json.Compound : Json → Prop
  | arr (items : List Json) : Compound (.arr items)
  | obj (members : List (Json.Str × Json)) : Compound (.obj members)

namespace Analysis

variable {a : Analysis} {id : Json} {e : PlanError}

theorem ofName?_eq_some_iff {s : String} : ofName? s = some a ↔ s = a.name := by
  constructor
  · intro h
    have hname := List.find?_some h
    exact (beq_iff_eq.mp hname).symm
  · rintro rfl
    cases a <;> rfl

/-- A value names an analysis if it is its name. -/
theorem ofJson_eq_ok_iff : ofJson id = .ok a ↔ id = .str (.ofString a.name) := by
  constructor
  · intro h
    unfold ofJson at h
    split at h
    · rename_i s
      split at h
      · rename_i b hb
        obtain rfl := Except.ok.inj h
        obtain ⟨t, ht, hname⟩ := Option.bind_eq_some_iff.mp hb
        rw [ofName?_eq_some_iff.mp hname] at ht
        exact congrArg Json.str (Json.Str.eq_ofString_of_text? ht)
      · cases h
    all_goals cases h
  · rintro rfl
    rw [ofJson, Json.Str.text?_ofString, Option.bind_some, ofName?_eq_some_iff.mpr rfl]

/-- A value that names no analysis is refused, unless nothing can be looked up by it. -/
theorem ofJson_error (h : ofJson id = .error e) :
    e.isRefusal = true ∨ e = .unusableId id ∧ id.Compound := by
  unfold ofJson at h
  split at h
  · split at h
    · cases h
    · cases h
      exact Or.inl rfl
  · cases h
    exact Or.inr ⟨rfl, .arr _⟩
  · cases h
    exact Or.inr ⟨rfl, .obj _⟩
  · cases h
    exact Or.inl rfl

theorem ofJson_of_compound (h : id.Compound) : ofJson id = .error (.unusableId id) := by
  cases h <;> rfl

end Analysis

/-! ## Options -/

namespace AnalysisConfig

variable {a : Analysis} {options : Options} {c : AnalysisConfig} {e : PlanError}

/-- The analysis takes every option that is given, and the solver is left open or one that there is. -/
structure Allowed (c : AnalysisConfig) : Prop where
  taken {name : Json.Str} {value : Json} : (name, value) ∈ c.options →
    ∃ known ∈ c.id.options, name = .ofString known
  solver {value : Json} : c.get? "solver" = some value →
    value = .null ∨ ∃ name ∈ solvers, value = .str (.ofString name)

theorem allowed_nil (a : Analysis) : Allowed ⟨a, []⟩ :=
  ⟨nofun, nofun⟩

theorem isSolver_iff {value : Json} : isSolver value = true ↔
    value = .null ∨ ∃ name ∈ solvers, value = .str (.ofString name) := by
  cases value with
  | str s => simp [isSolver, eq_comm (a := s)]
  | _ => simp [isSolver]

/-- The check lets through what is allowed. -/
theorem check_eq_ok_iff : check a options = .ok c ↔ c = ⟨a, options⟩ ∧ c.Allowed := by
  have hnames : (options.map (·.1)).filter (fun name =>
        !a.options.any fun known => Json.Str.ofString known = name) = [] ↔
      ∀ name value, (name, value) ∈ options → ∃ known ∈ a.options, name = .ofString known := by
    simp [List.filter_eq_nil_iff, @eq_comm Json.Str]
  have hsolver : isSolver ((Json.member? options "solver").getD .null) = true ↔
      ∀ value, Json.member? options "solver" = some value →
        value = .null ∨ ∃ name ∈ solvers, value = .str (.ofString name) := by
    rw [isSolver_iff]
    cases Json.member? options "solver" <;> simp
  unfold check
  dsimp only
  split
  · rename_i hunknown
    refine ⟨nofun, ?_⟩
    rintro ⟨rfl, h⟩
    exact absurd (hnames.mpr fun _ _ => h.taken) hunknown
  · rename_i hknown
    split
    · rename_i hnot
      refine ⟨nofun, ?_⟩
      rintro ⟨rfl, h⟩
      rw [hsolver.mpr fun _ => h.solver] at hnot
      exact absurd hnot (by simp)
    · rename_i hyes
      rw [Except.ok.injEq, eq_comm]
      refine (and_iff_left_of_imp ?_).symm
      rintro rfl
      exact ⟨(hnames.mp (not_not.mp hknown)) _ _, hsolver.mp (by simpa using hyes) _⟩

/-- What is not allowed is refused. -/
theorem isRefusal_of_check (h : check a options = .error e) : e.isRefusal = true := by
  unfold check at h
  dsimp only at h
  split at h
  · cases h; rfl
  · split at h
    · cases h; rfl
    · cases h

/-- A configuration is read where the id names its analysis and the options are allowed. -/
theorem ofId_eq_ok_iff {id : Json} :
    ofId id options = .ok c ↔ id = .str (.ofString c.id.name) ∧ options = c.options ∧ c.Allowed := by
  rw [ofId, Resolve.bind_eq_ok]
  constructor
  · rintro ⟨a, ha, hc⟩
    obtain ⟨rfl, hallowed⟩ := check_eq_ok_iff.mp hc
    exact ⟨Analysis.ofJson_eq_ok_iff.mp ha, rfl, hallowed⟩
  · rintro ⟨hid, rfl, hallowed⟩
    exact ⟨c.id, Analysis.ofJson_eq_ok_iff.mpr hid, check_eq_ok_iff.mpr ⟨rfl, hallowed⟩⟩

theorem ofId_error {id : Json} (h : ofId id options = .error e) :
    e.isRefusal = true ∨ e = .unusableId id ∧ id.Compound := by
  unfold ofId at h
  cases ha : Analysis.ofJson id with
  | error e' =>
      rw [ha] at h
      cases h
      exact Analysis.ofJson_error ha
  | ok a =>
      rw [ha] at h
      exact Or.inl (isRefusal_of_check h)

theorem ofId_of_compound {id : Json} (h : id.Compound) :
    ofId id options = .error (.unusableId id) := by
  rw [ofId, Analysis.ofJson_of_compound h]
  rfl

end AnalysisConfig

/-! ## Entries -/

namespace Plan

open AnalysisConfig (Allowed)

variable {entry id data : Json} {c : AnalysisConfig} {e : PlanError} {p : Plan}

/-- An entry of a plan asks for a configuration: by the name of its analysis, or as an object that has the
name as its id and allowed options, if any. -/
inductive Describes : Json → AnalysisConfig → Prop
  | name (a : Analysis) : Describes (.str (.ofString a.name)) ⟨a, []⟩
  | object {members : List (Json.Str × Json)} {c : AnalysisConfig} :
    Json.member? members "id" = some (.str (.ofString c.id.name)) →
    (Json.member? members "options").getD (.obj []) = .obj c.options → c.Allowed →
    Describes (.obj members) c

/-- An entry of a plan has an id that nothing can be looked up by, and options that are in the right
shape. -/
inductive Misnames : Json → Json → Prop
  | object {members options : List (Json.Str × Json)} {id : Json} :
    Json.member? members "id" = some id → id.Compound →
    (Json.member? members "options").getD (.obj []) = .obj options → Misnames (.obj members) id

/-- An entry is read just as the configuration that it asks for. -/
theorem readEntry_eq_ok_iff : readEntry entry = .ok c ↔ Describes entry c := by
  constructor
  · intro h
    unfold readEntry at h
    split at h
    · obtain ⟨hid, hoptions, -⟩ := AnalysisConfig.ofId_eq_ok_iff.mp h
      obtain ⟨a, options⟩ := c
      subst hoptions
      rw [hid]
      exact .name a
    · split at h
      · cases h
      · rename_i hid hnone
        obtain ⟨rfl, hoptions, hallowed⟩ := AnalysisConfig.ofId_eq_ok_iff.mp h
        exact .object hid (by rw [hnone, ← hoptions, Option.getD_none]) hallowed
      · rename_i hid hsome
        obtain ⟨rfl, hoptions, hallowed⟩ := AnalysisConfig.ofId_eq_ok_iff.mp h
        exact .object hid (by rw [hsome, ← hoptions, Option.getD_some]) hallowed
      · cases h
    · cases h
  · intro h
    cases h with
    | name a =>
        exact AnalysisConfig.ofId_eq_ok_iff.mpr ⟨rfl, rfl, AnalysisConfig.allowed_nil a⟩
    | @object members _ hid hoptions hallowed =>
        have hread := AnalysisConfig.ofId_eq_ok_iff.mpr ⟨rfl, rfl, hallowed⟩
        cases hopt : Json.member? members "options" with
        | none =>
            rw [hopt, Option.getD_none] at hoptions
            simpa only [readEntry, hid, hopt, Json.obj.inj hoptions] using hread
        | some options =>
            rw [hopt, Option.getD_some] at hoptions
            simpa only [readEntry, hid, hopt, hoptions] using hread

/-- An entry that is not read is refused, unless its id is one that nothing can be looked up by. -/
theorem readEntry_error (h : readEntry entry = .error e) :
    e.isRefusal = true ∨ ∃ id, e = .unusableId id ∧ Misnames entry id := by
  unfold readEntry at h
  split at h
  · refine (AnalysisConfig.ofId_error h).imp_right ?_
    rintro ⟨-, hid⟩
    cases hid
  · split at h
    · cases h
      exact Or.inl rfl
    · rename_i id hid hnone
      refine (AnalysisConfig.ofId_error h).imp_right ?_
      rintro ⟨he, hcompound⟩
      exact ⟨id, he, .object hid hcompound (by rw [hnone, Option.getD_none])⟩
    · rename_i id options hid hsome
      refine (AnalysisConfig.ofId_error h).imp_right ?_
      rintro ⟨he, hcompound⟩
      exact ⟨id, he, .object hid hcompound (by rw [hsome, Option.getD_some])⟩
    · cases h
      exact Or.inl rfl
  · cases h
    exact Or.inl rfl

theorem readEntry_of_misnames (h : Misnames entry id) : readEntry entry = .error (.unusableId id) := by
  cases h with
  | @object members options id hid hcompound hoptions =>
      cases hopt : Json.member? members "options" with
      | none => simp only [readEntry, hid, hopt, AnalysisConfig.ofId_of_compound hcompound]
      | some given =>
          rw [hopt, Option.getD_some] at hoptions
          simp only [readEntry, hid, hopt, hoptions, AnalysisConfig.ofId_of_compound hcompound]

/-! ## Plans -/

/-- The entries of a decoded plan, if it has the shape of one. -/
def entries? : Json → Option (List Json)
  | .obj members =>
    match Json.member? members "analyses" with
    | some (.arr entries) => some entries
    | _ => none
  | _ => none

/-- Reading comes upon an entry that has an id nothing can be looked up by, behind entries that it reads. -/
def BreaksAt (data id : Json) : Prop :=
  ∃ before entry after, entries? data = some (before ++ entry :: after) ∧
    (∀ d ∈ before, ∃ c, Describes d c) ∧ Misnames entry id

theorem ofJson_eq (data : Json) : ofJson data =
    match entries? data with
    | some entries => do return ofConfigs (← entries.mapM readEntry)
    | none => .error .notAPlan := by
  cases data with
  | obj members =>
      cases hes : Json.member? members "analyses" with
      | none => simp only [ofJson, entries?, hes]
      | some es => cases es <;> simp only [ofJson, entries?, hes]
  | _ => rfl

/-- A plan is read just from entries that each ask for a configuration, and it is that of these. -/
theorem ofJson_eq_ok_iff : ofJson data = .ok p ↔
    ∃ entries given, entries? data = some entries ∧ List.Forall₂ Describes entries given ∧
      p = ofConfigs given := by
  have hall : ∀ entries given, entries.mapM readEntry = .ok given ↔
      List.Forall₂ Describes entries given := by
    intro entries given
    simp only [Resolve.mapM_eq_ok, readEntry_eq_ok_iff]
  rw [ofJson_eq]
  cases hentries : entries? data with
  | none => simp
  | some entries =>
      simp only [Resolve.bind_eq_ok, hall, Option.some.injEq]
      constructor
      · rintro ⟨given, hgiven, hp⟩
        exact ⟨entries, given, rfl, hgiven, (Except.ok.inj hp).symm⟩
      · rintro ⟨_, given, rfl, hgiven, rfl⟩
        exact ⟨given, hgiven, rfl⟩

/-- A plan that is not read either has not the shape of one or fails at the first entry that is not
read. -/
theorem ofJson_eq_error_iff : ofJson data = .error e ↔
    (entries? data = none ∧ e = .notAPlan) ∨
    ∃ before entry after, entries? data = some (before ++ entry :: after) ∧
      (∀ d ∈ before, ∃ c, Describes d c) ∧ readEntry entry = .error e := by
  rw [ofJson_eq]
  cases hentries : entries? data with
  | none => simp [eq_comm]
  | some entries =>
      have hbind : (do return ofConfigs (← entries.mapM readEntry) : Except PlanError Plan) = .error e ↔
          entries.mapM readEntry = .error e := by
        cases entries.mapM readEntry <;> simp [bind, Except.bind, pure, Except.pure]
      simp only [hbind, Resolve.mapM_eq_error, readEntry_eq_ok_iff]
      simp

/-- Reading breaks down just at an id that nothing can be looked up by. -/
theorem ofJson_eq_unusableId_iff : ofJson data = .error (.unusableId id) ↔ BreaksAt data id := by
  rw [ofJson_eq_error_iff]
  constructor
  · rintro (⟨-, h⟩ | ⟨before, entry, after, hentries, hbefore, hread⟩)
    · cases h
    · rcases readEntry_error hread with hrefused | ⟨id', hid, hmisnames⟩
      · cases hrefused
      · cases hid
        exact ⟨before, entry, after, hentries, hbefore, hmisnames⟩
  · rintro ⟨before, entry, after, hentries, hbefore, hmisnames⟩
    exact Or.inr ⟨before, entry, after, hentries, hbefore, readEntry_of_misnames hmisnames⟩

/-- A plan that is not read is refused, unless reading breaks down at an id. -/
theorem isRefusal_or_breaksAt (h : ofJson data = .error e) :
    e.isRefusal = true ∨ ∃ id, e = .unusableId id ∧ BreaksAt data id := by
  rcases ofJson_eq_error_iff.mp h with ⟨-, rfl⟩ | ⟨_, entry, _, _, _, hread⟩
  · exact Or.inl rfl
  · refine (readEntry_error hread).imp_right ?_
    rintro ⟨id, rfl, -⟩
    exact ⟨id, rfl, ofJson_eq_unusableId_iff.mp h⟩

/-- What an entry describes is allowed. -/
theorem Describes.allowed (h : Describes entry c) : c.Allowed := by
  cases h with
  | name a => exact AnalysisConfig.allowed_nil a
  | object _ _ hallowed => exact hallowed

/-- The configurations of a plan that is read are allowed, those that were asked for as well as those that
they require. -/
theorem allowed_of_ofJson (h : ofJson data = .ok p) (hc : c ∈ p.configs) : c.Allowed := by
  obtain ⟨_, entries, given, -, -, hgiven, hbuilt⟩ := exists_built_of_ofJson h
  rcases hbuilt.mem_configs hc with hmem | hnil
  · obtain ⟨entry, -, hentry⟩ := Resolve.exists_of_mem_mapM hgiven hmem
    exact (readEntry_eq_ok_iff.mp hentry).allowed
  · obtain ⟨a, options⟩ := c
    cases hnil
    exact AnalysisConfig.allowed_nil a

end Plan

/-! ## Runs -/

namespace Outcome

variable {find : String → Path.Found} {args : List String} {data : Json} {e : PlanError}

/-- The arguments name a program file that is there, and a plan file that holds a decoded plan. -/
def Offers [Nesting] (find : String → Path.Found) (args : List String) (data : Json) : Prop :=
  ∃ r planPath text planText, Arguments.read args = .ok r ∧
    find (Path.normal (Path.normal (r.program.getD ""))) = .file text ∧
    r.plan = some planPath ∧ planPath ≠ "" ∧ find (Path.normal planPath) = .file planText ∧
    Json.parse planText = .ok data

/-- A run that is offered a plan which is not read ends with that. -/
theorem ofArguments_of_error [Nesting] (h : Offers find args data) (he : Plan.ofJson data = .error e) :
    ofArguments find args = failed (.plan e) [] := by
  obtain ⟨r, planPath, text, planText, hargs, hprogram, hplan, hne, hfound, hdata⟩ := h
  have hgiven : r.plan.filter (!·.isEmpty) = some planPath := by
    simp [hplan, hne]
  have htext : Plan.ofText (Path.normal planPath) planText = .error e := by
    simp only [Plan.ofText, hdata, he]
  simp only [ofArguments, hargs, withFile, hprogram, ofRequest, hgiven, hfound, htext]

end Outcome

/-! ## Settled plans -/

namespace Plan

variable {data id : Json} {p : Plan}

/-- A decoded plan is read, with nothing in it that is not allowed, or it is refused, and a run that is
offered it fails with the reason and does nothing else. -/
structure Settled [Nesting] (data : Json) : Prop where
  judged : (∃ p, ofJson data = .ok p ∧ ∀ c ∈ p.configs, c.Allowed) ∨
    ∃ e, ofJson data = .error e ∧ e.isRefusal = true
  reported {find : String → Path.Found} {args : List String} {e : PlanError} :
    Outcome.Offers find args data → ofJson data = .error e →
    (Outcome.ofArguments find args).status = 1 ∧ (Outcome.ofArguments find args).output = "" ∧
      (Outcome.ofArguments find args).failureText = some (.ofString "jflow: error: " ++ e.message)

/-- What becomes of a decoded plan. -/
structure Judged [Nesting] (data : Json) : Prop where
  /-- It is settled unless reading breaks down at an id. -/
  settled : Settled data ↔ ∀ id, ¬ BreaksAt data id
  /-- It is read just if each of its entries asks for a configuration. -/
  read {p : Plan} : ofJson data = .ok p ↔
    ∃ entries given, entries? data = some entries ∧ List.Forall₂ Describes entries given ∧
      p = ofConfigs given
  /-- It breaks down with the id that it breaks down at. -/
  broken {id : Json} : ofJson data = .error (.unusableId id) ↔ BreaksAt data id

/-- **A decoded plan is read or refused**, unless the first entry that is not read has an array or an object
as its id. -/
theorem judged_ofJson [Nesting] (data : Json) : Judged data := by
  refine ⟨⟨fun h id hbreaks => ?_, fun hnot => ⟨?_, ?_⟩⟩, ofJson_eq_ok_iff, ofJson_eq_unusableId_iff⟩
  · have hbroken := ofJson_eq_unusableId_iff.mpr hbreaks
    rcases h.judged with ⟨p, hp, -⟩ | ⟨e, he, hrefused⟩
    · rw [hbroken] at hp
      cases hp
    · rw [hbroken] at he
      cases he
      cases hrefused
  · cases hdata : ofJson data with
    | ok p => exact Or.inl ⟨p, rfl, fun c => allowed_of_ofJson hdata⟩
    | error e =>
        rcases isRefusal_or_breaksAt hdata with hrefused | ⟨id, -, hbreaks⟩
        · exact Or.inr ⟨e, rfl, hrefused⟩
        · exact absurd hbreaks (hnot id)
  · intro find args e hoffers he
    rw [Outcome.ofArguments_of_error hoffers he]
    exact ⟨rfl, rfl, rfl⟩

/-- A run that is offered the plan `null` fails, for that is no plan. -/
theorem judged_ofJson_null :
    let find : String → Path.Found := fun path => .file (if path = "plan" then "null" else "")
    let args := ["program", "--plan", "plan"]
    Judged .null ∧ Outcome.Offers find args .null ∧ (Outcome.ofArguments find args).status = 1 := by
  intro find args
  have hjudged := judged_ofJson .null
  have hsettled : Settled .null :=
    hjudged.settled.mpr fun id ⟨_, _, _, hentries, _⟩ => by cases hentries
  have hoffers : Outcome.Offers find args .null :=
    ⟨_, "plan", "", "null", rfl, rfl, rfl, by decide, rfl, rfl⟩
  exact ⟨hjudged, hoffers, (hsettled.reported hoffers rfl).1⟩

/-- A plan with one entry whose id is an empty array is neither read nor refused. -/
theorem not_settled_unnamed :
    ¬ Settled (.obj [(.ofString "analyses", .arr [.obj [(.ofString "id", .arr [])]])]) := by
  intro h
  rcases h.judged with ⟨p, hp, -⟩ | ⟨e, he, hrefused⟩
  · cases hp
  · cases he
    cases hrefused

end Plan

end TacFlow
