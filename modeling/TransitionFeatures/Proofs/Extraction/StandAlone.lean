import TransitionFeatures.Extraction.Options
import TransitionFeatures.Proofs.Evaluation.Faults
import TransitionFeatures.Proofs.Graph.Memo
import TransitionFeatures.Proofs.Template.Compilation

/-!
# Extraction and stand-alone evaluation

A run shares one memo table among all templates of a set, and what a template enters
stays when it is skipped halfway.  None of this can be seen from outside:
`extract_eq_anew` states that a run gives the result and the events that it gives
without a table, and `extract_iff_standAlone` that it gives what the descriptors give
when each is read and evaluated by itself.
-/

namespace TransitionFeatures

/-! ## Runs with and without a table -/

/-- A run agrees in two contexts that agree on the derived data that its templates
require. -/
theorem runTemplates_agree {m n : Type → Type} [Monad m] [Monad n] [DerivedData m]
    [DerivedData n] [LawfulMonad m] [LawfulMonad n] {agreement : Agreement m n}
    {state : State} {templates : List Template}
    (heads : ∀ template ∈ templates, .head ∈ template.requirements →
      agreement.SameHeads state.graph)
    (yields : ∀ template ∈ templates, .gaps ∈ template.requirements →
      agreement.SameYields state.graph) (id : TemplateId) :
    agreement.Agree (runTemplates state id templates) (runTemplates state id templates) := by
  induction templates generalizing id with
  | nil => exact agreement.agree_pure _
  | cons template rest inductionHypothesis =>
    rw [List.forall_mem_cons] at heads yields
    have restAgree := inductionHypothesis heads.2 yields.2 (id + 1)
    apply agreement.agree_bind (Template.read_agree heads.1 yields.1)
    intro result
    match result with
    | .ok values => exact agreement.agree_bind restAgree fun _ => agreement.agree_pure _
    | .error (.skip reason) =>
      exact agreement.agree_bind restAgree fun _ => agreement.agree_pure _
    | .error (.error cause) => exact agreement.agree_pure _

/-- The features of a state if its run does not use a table. -/
def Extractor.extractAnew (extractor : Extractor) (state : State) :
    Logged (Except EvalError (List Feature)) :=
  (Id.run (runTemplates state 0 extractor.set.templates)).andThen extractor.features

/-- In an acyclic graph a run gives the same whether or not it uses a table. -/
theorem Extractor.extract_eq_anew {state : State} (wellFormed : state.graph.WellFormed)
    (acyclic : state.graph.Acyclic) (extractor : Extractor) :
    extractor.extract state = extractor.extractAnew state := by
  have agree : (Memo.agreement state.graph).Agree
      (runTemplates state 0 extractor.set.templates)
      (runTemplates state 0 extractor.set.templates) :=
    runTemplates_agree (fun _ _ _ => Memo.agreement_sameHeads state.graph)
      (fun _ _ _ => Memo.agreement_sameYields wellFormed acyclic) 0
  rw [extract, run, Memo.ite_run_empty_eq_anew agree, extractAnew]

/-! ## Runs without a table -/

/-- What a run without a table does with its first template. -/
theorem run_runTemplates_cons (state : State) (id : TemplateId) (template : Template)
    (rest : List Template) :
    Id.run (runTemplates state id (template :: rest)) =
      let later : Logged (Except EvalError (List Found)) :=
        Id.run (runTemplates state (id + 1) rest)
      match template.evaluate state with
      | .ok values =>
        { later with result := later.result.map ({ template := id, values } :: ·) }
      | .error (.skip reason) =>
        { later with events := .skipped template.name reason :: later.events }
      | .error (.error cause) => { result := .error cause, events := [] } := by
  rw [runTemplates, Id.run_bind]
  unfold Template.evaluate
  generalize Id.run (template.read state).run = outcome
  rcases outcome with (reason | cause) | values <;> rfl

/-- The error of a template on a state, if it has one. -/
def Template.error? (state : State) (template : Template) : Option EvalError :=
  match template.evaluate state with
  | .error (.error error) => some error
  | _ => none

/-- The feature of a template on a state, if it has values. -/
def Template.feature? (state : State) (template : Template) : Option Feature :=
  match template.evaluate state with
  | .ok values => some { name := template.name, values }
  | _ => none

/-- What is found of a numbered template on a state, if it has values. -/
def Template.found? (state : State) (numbered : Template × TemplateId) : Option Found :=
  match numbered.1.evaluate state with
  | .ok values => some { template := numbered.2, values }
  | _ => none

/-- The first error decides; without one a run finds what the single templates give. -/
theorem result_runTemplates (state : State) (id : TemplateId) (templates : List Template) :
    (Id.run (runTemplates state id templates)).result =
      match templates.findSome? (Template.error? state) with
      | some error => .error error
      | none => .ok ((templates.zipIdx id).filterMap (Template.found? state)) := by
  induction templates generalizing id with
  | nil => rfl
  | cons template rest inductionHypothesis =>
    rw [run_runTemplates_cons]
    dsimp only
    rw [List.findSome?_cons, List.zipIdx_cons, List.filterMap_cons]
    cases outcome : template.evaluate state with
    | ok values =>
      simp only [Template.error?, Template.found?, outcome, inductionHypothesis]
      cases rest.findSome? (Template.error? state) <;> rfl
    | error halt =>
      cases halt with
      | skip reason => simp only [Template.error?, Template.found?, outcome, inductionHypothesis]
      | error cause => simp only [Template.error?, outcome]

namespace Extractor

variable {extractor : Extractor}

theorem features_eq_ok_iff {found : List Found} {features : List Feature} :
    extractor.features found = .ok features ↔ found.mapM extractor.feature = .ok features := by
  unfold Extractor.features
  cases found.mapM extractor.feature <;> simp [Except.mapError]

theorem feature_eq_ok {found : Found} {template : Template}
    (known : extractor.set.templates[found.template]? = some template) :
    extractor.feature found = .ok { name := template.name, values := found.values } := by
  rw [feature, TemplateSet.template_eq_ok_iff.mpr known]
  rfl

/-- Templates that stand under their numbers in the set give their names to what is found. -/
theorem features_filterMap_found? (state : State) {numbered : List (Template × TemplateId)}
    (places : ∀ row ∈ numbered, extractor.set.templates[row.2]? = some row.1) :
    extractor.features (numbered.filterMap (Template.found? state)) =
      .ok ((numbered.map Prod.fst).filterMap (Template.feature? state)) := by
  rw [features_eq_ok_iff]
  induction numbered with
  | nil => rfl
  | cons row rest inductionHypothesis =>
    obtain ⟨template, id⟩ := row
    rw [List.forall_mem_cons] at places
    have later := inductionHypothesis places.2
    rw [List.map_cons, List.filterMap_cons, List.filterMap_cons]
    cases outcome : template.evaluate state with
    | ok values =>
      simp only [Template.found?, Template.feature?, outcome]
      exact mapM_cons_eq_ok_iff.mpr ⟨_, _, feature_eq_ok places.1, later, rfl⟩
    | error halt =>
      simp only [Template.found?, Template.feature?, outcome]
      exact later

/-- The first error decides; without one the features are those of the single templates. -/
theorem result_extractAnew (extractor : Extractor) (state : State) :
    (extractor.extractAnew state).result =
      match extractor.set.templates.findSome? (Template.error? state) with
      | some error => .error error
      | none => .ok (extractor.set.templates.filterMap (Template.feature? state)) := by
  have places : ∀ row ∈ extractor.set.templates.zipIdx,
      extractor.set.templates[row.2]? = some row.1 := fun _ => List.mem_zipIdx_iff_getElem?.mp
  have named := features_filterMap_found? state places
  rw [List.zipIdx_map_fst] at named
  rw [extractAnew, Logged.andThen, result_runTemplates]
  cases extractor.set.templates.findSome? (Template.error? state) with
  | some error => rfl
  | none => exact named

/-- A run that ends gives the features of the single templates. -/
theorem features_eq_of_extract {state : State} (wellFormed : state.graph.WellFormed)
    (acyclic : state.graph.Acyclic) {features : List Feature}
    (extracted : (extractor.extract state).result = .ok features) :
    features = extractor.set.templates.filterMap (Template.feature? state) := by
  rw [extractor.extract_eq_anew wellFormed acyclic, result_extractAnew] at extracted
  split at extracted
  · cases extracted
  · exact (Except.ok.inj extracted).symm

end Extractor

/-! ## Descriptors by themselves -/

/-- The outcome of a descriptor that is read and evaluated by itself, without a table. -/
def standAlone (state : State) (descriptor : String) : Option (Except Halt (List String)) :=
  (Template.parse? descriptor).map fun template => template.evaluate state

/-- The feature that a descriptor gives by itself. -/
def standAloneFeature? (state : State) (descriptor : String) : Option Feature :=
  match standAlone state descriptor with
  | some (.ok values) => some { name := descriptor, values }
  | _ => none

/-- The error that a descriptor gives by itself. -/
def standAloneError? (state : State) (descriptor : String) : Option EvalError :=
  match standAlone state descriptor with
  | some (.error (.error error)) => some error
  | _ => none

theorem standAloneFeature?_eq (state : State) (descriptor : String) :
    standAloneFeature? state descriptor =
      (Template.parse? descriptor).bind (Template.feature? state) := by
  unfold standAloneFeature? standAlone
  cases read : Template.parse? descriptor with
  | none => rfl
  | some template =>
    have name : template.name = descriptor := (Template.parse?_eq_some_iff.mp read).1
    simp only [Option.map_some, Option.bind_some, Template.feature?, name]
    cases template.evaluate state <;> rfl

theorem standAloneError?_eq (state : State) (descriptor : String) :
    standAloneError? state descriptor =
      (Template.parse? descriptor).bind (Template.error? state) := by
  unfold standAloneError? standAlone
  cases Template.parse? descriptor with
  | none => rfl
  | some template =>
    simp only [Option.map_some, Option.bind_some, Template.error?]
    rcases template.evaluate state with (reason | error) | values <;> rfl

theorem standAloneError?_eq_some_iff {state : State} {descriptor : String}
    {error : EvalError} :
    standAloneError? state descriptor = some error ↔
      standAlone state descriptor = some (.error (.error error)) := by
  unfold standAloneError?
  rcases standAlone state descriptor with _ | (reason | error) | values <;> simp

theorem standAloneError?_eq_none_iff {state : State} {descriptor : String} :
    standAloneError? state descriptor = none ↔
      ∀ error, standAlone state descriptor ≠ some (.error (.error error)) := by
  simp only [ne_eq, ← standAloneError?_eq_some_iff]
  exact Option.eq_none_iff_forall_ne_some

/-- Accepted descriptors make an extractor of the templates that they are read as. -/
theorem Extractor.result_ofOptions {descriptors : List String} {memoize : Bool}
    (accepted : ∀ descriptor ∈ descriptors, (Template.parse? descriptor).isSome) :
    (Extractor.ofOptions { descriptors, memoize }).result =
      .ok { set := .ofTemplates (descriptors.filterMap Template.parse?), memoize } := by
  have readable : TemplateSet.invalid descriptors = [] :=
    TemplateSet.invalid_eq_nil_iff.mpr fun descriptor member =>
      Option.isSome_iff_exists.mp (accepted descriptor member)
  simp only [Extractor.ofOptions, TemplateSet.result_compile_eq_ok_iff.mpr ⟨readable, rfl⟩]
  rfl

section Run

variable {extractor : Extractor} {state : State} {descriptors : List String}

section Reads

variable (reads : extractor.set = .ofTemplates (descriptors.filterMap Template.parse?))

include reads

/-- An extractor made of some descriptors, in terms of the descriptors. -/
theorem Extractor.result_extractAnew_of_reads :
    (extractor.extractAnew state).result =
      match descriptors.findSome? (standAloneError? state) with
      | some error => .error error
      | none => .ok (descriptors.filterMap (standAloneFeature? state)) := by
  rw [result_extractAnew, reads, TemplateSet.ofTemplates, ← List.head?_filterMap,
    List.filterMap_filterMap, List.filterMap_filterMap, List.head?_filterMap,
    funext (standAloneError?_eq state), funext (standAloneFeature?_eq state)]

theorem Extractor.result_extractAnew_eq_ok_iff {features : List Feature} :
    (extractor.extractAnew state).result = .ok features ↔
      (∀ descriptor ∈ descriptors, ∀ error,
        standAlone state descriptor ≠ some (.error (.error error))) ∧
      features = descriptors.filterMap (standAloneFeature? state) := by
  rw [result_extractAnew_of_reads reads]
  cases first : descriptors.findSome? (standAloneError? state) with
  | none =>
    have errorless := List.findSome?_eq_none_iff.mp first
    simp only [standAloneError?_eq_none_iff] at errorless
    rw [and_iff_right errorless, Except.ok.injEq, eq_comm]
  | some error =>
    obtain ⟨descriptor, member, found⟩ := List.exists_of_findSome?_eq_some first
    apply iff_of_false nofun
    rintro ⟨errorless, _⟩
    exact errorless descriptor member error (standAloneError?_eq_some_iff.mp found)

theorem Extractor.result_extractAnew_eq_error_iff {error : EvalError} :
    (extractor.extractAnew state).result = .error error ↔
      ∃ before descriptor after, descriptors = before ++ descriptor :: after ∧
        (∀ earlier ∈ before, ∀ other,
          standAlone state earlier ≠ some (.error (.error other))) ∧
        standAlone state descriptor = some (.error (.error error)) := by
  have decided : (extractor.extractAnew state).result = .error error ↔
      descriptors.findSome? (standAloneError? state) = some error := by
    rw [result_extractAnew_of_reads reads]
    cases descriptors.findSome? (standAloneError? state) <;> simp
  rw [decided, List.findSome?_eq_some_iff]
  simp only [standAloneError?_eq_some_iff, standAloneError?_eq_none_iff]
  constructor
  · rintro ⟨before, descriptor, after, split, found, earlier⟩
    exact ⟨before, descriptor, after, split, earlier, found⟩
  · rintro ⟨before, descriptor, after, split, earlier, found⟩
    exact ⟨before, descriptor, after, split, found, earlier⟩

end Reads

/-- In an acyclic graph no descriptor runs into a fault. -/
theorem standAlone_ne_fault (admissible : state.Admissible) (acyclic : state.graph.Acyclic)
    (descriptor : String) (cause : Fault) :
    standAlone state descriptor ≠ some (.error (.error (.fault cause))) := by
  intro faulty
  obtain ⟨template, _, evaluated⟩ := Option.map_eq_some_iff.mp faulty
  exact (admissible.evaluate_faultsOnlyIf template).ne_fault (not_not_intro acyclic) cause
    evaluated

end Run

/-- Accepted descriptors make an extractor whose runs, with or without a table, give the
features of the descriptors by themselves, or the first error that one of them gives. -/
theorem extract_iff_standAlone (descriptors : List String) (memoize : Bool)
    (accepted : ∀ descriptor ∈ descriptors, (Template.parse? descriptor).isSome)
    (state : State) (admissible : state.Admissible) (acyclic : state.graph.Acyclic) :
    ∃ extractor : Extractor,
      (Extractor.ofOptions { descriptors, memoize }).result = .ok extractor ∧
        (∀ features, (extractor.extract state).result = .ok features ↔
          (∀ descriptor ∈ descriptors, ∀ error,
            standAlone state descriptor ≠ some (.error (.error error))) ∧
          features = descriptors.filterMap (standAloneFeature? state)) ∧
        (∀ error, (extractor.extract state).result = .error error ↔
          ∃ before descriptor after, descriptors = before ++ descriptor :: after ∧
            (∀ earlier ∈ before, ∀ other,
              standAlone state earlier ≠ some (.error (.error other))) ∧
            standAlone state descriptor = some (.error (.error error))) ∧
        ∀ cause, (extractor.extract state).result ≠ .error (.fault cause) := by
  refine ⟨_, Extractor.result_ofOptions accepted, ?_⟩
  rw [Extractor.extract_eq_anew admissible.wellFormed acyclic]
  refine ⟨fun features => Extractor.result_extractAnew_eq_ok_iff rfl,
    fun error => Extractor.result_extractAnew_eq_error_iff rfl, fun cause failed => ?_⟩
  obtain ⟨_, descriptor, _, _, _, faulty⟩ :=
    (Extractor.result_extractAnew_eq_error_iff rfl).mp failed
  exact standAlone_ne_fault admissible acyclic descriptor cause faulty

/-- How a sentence with a particle verb around its object is annotated. -/
def particleVerbSteps : List BuildStep :=
  [.terminal "gave" "VBD", .terminal "it" "PRP", .terminal "up" "RP", .unit,
    .edge EdgeTag.relator 3 2, .edge EdgeTag.center 3 0]

/-- The object and, on top of it, the unit of the verb and its particle. -/
def particleVerb : State where
  graph :=
    { nodes := #[
        { content := .token ⟨"gave", "VBD", false, 0⟩, outgoing := [], incoming := [1] },
        { content := .token ⟨"it", "PRP", false, 1⟩, outgoing := [], incoming := [] },
        { content := .token ⟨"up", "RP", false, 2⟩, outgoing := [], incoming := [0] },
        { content := .unit false, outgoing := [0, 1], incoming := [] }]
      edges := #[⟨"R", 3, 2, false⟩, ⟨"C", 3, 0, false⟩]
      terminals := #[0, 1, 2] }
  stack := [1, 3]
  buffer := []
  actions := []

/-- Two templates with values, one of them twice, and one that is skipped halfway. -/
theorem extract_particleVerb :
    let descriptors := ["s0xy", "s0yb0w", "s1wb0w", "s1t", "s0xy"]
    (∀ descriptor ∈ descriptors, (Template.parse? descriptor).isSome) ∧
      particleVerb.Admissible ∧ particleVerb.graph.Acyclic ∧
      ∃ extractor : Extractor,
        (Extractor.ofOptions { descriptors, memoize := true }).result = .ok extractor ∧
          (extractor.extract particleVerb).result =
            .ok [⟨"s0xy", ["p", "1"]⟩, ⟨"s1t", ["PRP"]⟩, ⟨"s0xy", ["p", "1"]⟩] := by
  intro descriptors
  have accepted : ∀ descriptor ∈ descriptors, (Template.parse? descriptor).isSome := by
    decide +kernel
  have admissible : particleVerb.Admissible :=
    { built := ⟨particleVerbSteps, rfl⟩
      stack_lt := by decide
      buffer_lt := by decide }
  have acyclic : particleVerb.graph.Acyclic := Graph.acyclic_of_child_lt_parent (by decide)
  have errorless : ∀ descriptor ∈ descriptors,
      standAloneError? particleVerb descriptor = none := by
    decide +kernel
  obtain ⟨extractor, made, features, _⟩ :=
    extract_iff_standAlone descriptors true accepted particleVerb admissible acyclic
  refine ⟨accepted, admissible, acyclic, extractor, made, (features _).mpr ⟨?_, rfl⟩⟩
  exact fun descriptor member => standAloneError?_eq_none_iff.mp (errorless descriptor member)

end TransitionFeatures
