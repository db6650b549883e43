import TransitionFeatures.Extraction.Report
import TransitionFeatures.Proofs.Extraction.StandAlone
import TransitionFeatures.Proofs.Graph.Unseen

/-!
# The gate of the memo table

A run uses a memo table if that is allowed and some template reads derived data at a node.
Requirements decide this, and they announce whatever is asked for: a template that does not
require heads, or gaps, does not see that part of a table, and a run that is refused the
table although it is allowed asks for nothing.  `Extractor.gate_exact` puts this together.
-/

namespace TransitionFeatures

/-! ## What opens the gate -/

/-- The properties that are read by means of heads or yields. -/
def derivedProperties : List Property :=
  [.text, .partOfSpeech, .separator, .separatorCount, .gapType, .gapLengthSum]

theorem Property.exists_derived_iff {property : Property} :
    (∃ requirement ∈ property.required, requirement ∈ Requirements.derived) ↔
      property ∈ derivedProperties := by
  cases property <;> decide

theorem Source.requirement_not_mem_derived (source : Source) :
    source.requirement ∉ Requirements.derived := by
  cases source <;> decide

/-- An element requires derived data if and only if it reads some at a node. -/
theorem Element.exists_derived_iff {element : Element} :
    (∃ requirement ∈ element.required, requirement ∈ Requirements.derived) ↔
      element.source ≠ .actions ∧
        ∃ property ∈ element.properties, property ∈ derivedProperties := by
  have indicator : Requirement.indicator ∉ Requirements.derived := by decide
  rw [required, List.exists_mem_cons_iff, or_iff_right element.source.requirement_not_mem_derived]
  by_cases bare : element.isBare = true
  · rw [if_pos bare, List.isEmpty_iff.mp bare]
    simp [indicator]
  · by_cases source : element.source = .actions
    · simp [bare, source]
    · rw [if_neg bare, if_neg source]
      simp only [← Property.exists_derived_iff]
      constructor
      · rintro ⟨requirement, member, derived⟩
        rcases List.mem_flatMap.mp member with ⟨property, propertyMember, required⟩
        exact ⟨source, property, propertyMember, requirement, required, derived⟩
      · rintro ⟨_, property, propertyMember, requirement, required, derived⟩
        exact ⟨requirement, List.mem_flatMap.mpr ⟨property, propertyMember, required⟩, derived⟩

/-- Some element of the template reads derived data at a node. -/
def Template.ReadsDerived (template : Template) : Prop :=
  ∃ element ∈ template.elements, element.source ≠ .actions ∧
    ∃ property ∈ element.properties, property ∈ derivedProperties

theorem Template.exists_derived_iff {template : Template} :
    (∃ requirement : Requirement, requirement ∈ template.requirements ∧
      requirement ∈ Requirements.derived) ↔ template.ReadsDerived := by
  simp only [Template.ReadsDerived, ← Element.exists_derived_iff, Template.mem_requirements]
  constructor
  · rintro ⟨requirement, ⟨element, member, required⟩, derived⟩
    exact ⟨element, member, requirement, required, derived⟩
  · rintro ⟨element, member, requirement, required, derived⟩
    exact ⟨requirement, ⟨element, member, required⟩, derived⟩

theorem TemplateSet.meets_derived_iff {templates : List Template} :
    (TemplateSet.ofTemplates templates).combinedRequirements.meets .derived = true ↔
      ∃ template ∈ templates, template.ReadsDerived := by
  simp only [Requirements.meets_iff, mem_combinedRequirements_ofTemplates,
    ← Template.exists_derived_iff]
  constructor
  · rintro ⟨requirement, ⟨template, member, required⟩, derived⟩
    exact ⟨template, member, requirement, required, derived⟩
  · rintro ⟨template, member, requirement, required, derived⟩
    exact ⟨requirement, ⟨template, member, required⟩, derived⟩

namespace Extractor

variable {options : Options} {extractor : Extractor}

theorem exists_templates_of_ofOptions (made : (ofOptions options).result = .ok extractor) :
    ∃ templates, extractor =
      { set := .ofTemplates templates, memoize := options.memoize } := by
  rcases map_eq_ok_iff.mp made with ⟨set, compiled, rfl⟩
  exact ⟨_, congrArg (Extractor.mk · options.memoize)
    (TemplateSet.result_compile_eq_ok_iff.mp compiled).2⟩

/-- A run uses a table if and only if that is allowed and some template reads derived data
at a node. -/
theorem memoizes_iff (made : (ofOptions options).result = .ok extractor) :
    extractor.memoizes = true ↔
      options.memoize = true ∧
        ∃ template ∈ extractor.set.templates, template.ReadsDerived := by
  rcases exists_templates_of_ofOptions made with ⟨templates, rfl⟩
  rw [memoizes, Bool.and_eq_true, TemplateSet.meets_derived_iff]
  rfl

end Extractor

/-! ## What the gate decides -/

/-- The plain run and the measured one are made in a context, in which a result is reached in a
given way, and features and reports are made of what they leave. -/
structure Extractor.RunsIn (extractor : Extractor) (state : State) (m : Type → Type) [Monad m]
    [DerivedData m] (reach : ∀ {α : Type}, m α → α) : Prop where
  extract_eq : extractor.extract state =
    (reach (runTemplates state 0 extractor.set.templates)).andThen extractor.features
  report_eq : extractor.report state =
    (reach ((MeasuredRun.blank extractor.memoizes).extend state [] 0
      extractor.set.templates)).andThen extractor.describe

/-- The runs of an extractor that memoizes share one table, empty at first; the others have
none. -/
theorem Extractor.runsIn (extractor : Extractor) (state : State) :
    (extractor.memoizes = true →
      extractor.RunsIn state (StateM Memo) fun run => (run.run .empty).1) ∧
      (extractor.memoizes = false → extractor.RunsIn state Id Id.run) := by
  constructor
  · intro memoizes
    constructor
    · rw [extract, run, if_pos memoizes]
    · rw [report, measure, if_pos memoizes]
  · intro memoizes
    have without : ¬ extractor.memoizes = true := ne_true_of_eq_false memoizes
    constructor
    · rw [extract, run, if_neg without]
    · rw [report, measure, if_neg without]

/-- The flag of a measured run is handed on as it is. -/
theorem MeasuredRun.memoized_extend {m : Type → Type} [Monad m] [LawfulMonad m] [DerivedData m]
    (state : State) (run : MeasuredRun) (events : List Event) (id : TemplateId)
    (templates : List Template) :
    (fun logged => { logged with
      result := logged.result.map fun final =>
        { final with metrics := { final.metrics with memoized := run.metrics.memoized } } }) <$>
        run.extend state events id templates =
      (run.extend state events id templates : m (Logged (Except EvalError MeasuredRun))) := by
  induction templates generalizing run events id with
  | nil => simp [extend, Except.map]
  | cons template rest inductionHypothesis =>
    rw [extend, map_bind]
    apply bind_congr
    intro outcome
    match outcome with
    | .ok values => exact inductionHypothesis (run.present id values) events (id + 1)
    | .error (.skip reason) =>
      exact inductionHypothesis (run.skip reason) (events ++ [.skipped template.name reason])
        (id + 1)
    | .error (.error cause) => simp [Except.map]

namespace Extractor

variable {extractor : Extractor} {state : State} {report : Report}

/-- A measured run says whether it used a table. -/
theorem memoized_of_measure {run : MeasuredRun}
    (measured : (extractor.measure state).result = .ok run) :
    run.metrics.memoized = extractor.memoizes := by
  have kept (m : Type → Type) [Monad m] [LawfulMonad m] [DerivedData m] :=
    MeasuredRun.memoized_extend (m := m) state (.blank extractor.memoizes) [] 0
      extractor.set.templates
  have handedOn := Memo.map_ite_run_empty kept extractor.memoizes
  rw [measure, ← congrArg Logged.result handedOn] at measured
  rcases map_eq_ok_iff.mp measured with ⟨final, _, rfl⟩
  rfl

theorem describe_eq_ok_iff {run : MeasuredRun} :
    extractor.describe run = .ok report ↔
      ∃ features, extractor.features run.found = .ok features ∧
        report = {
          memoized := run.metrics.memoized
          presentCount := run.metrics.presentCount
          skippedCount := run.metrics.skippedCount
          outcomes := extractor.set.templates.zipWith Template.outcome run.metrics.templates
          features } := by
  unfold describe
  cases extractor.features run.found with
  | error cause => simp [bind, Except.bind]
  | ok features => simp [bind, Except.bind, pure, Except.pure, eq_comm]

/-- A report says whether its run used a table. -/
theorem memoized_of_report (reported : (extractor.report state).result = .ok report) :
    report.memoized = extractor.memoizes := by
  rcases bind_eq_ok_iff.mp reported with ⟨run, measured, described⟩
  rcases describe_eq_ok_iff.mp described with ⟨_, _, rfl⟩
  exact memoized_of_measure measured

end Extractor

/-! ## Runs that ask for nothing -/

/-- The agreement of computations that are single values whatever the context is. -/
def pureAgreement (m : Type → Type) [Monad m] [LawfulMonad m] : Agreement m Id where
  Agree first other := first = pure (Id.run other)
  agree_pure _ := rfl
  agree_bind {_ _ _ other _ _} agree laterAgree := by
    rw [agree, pure_bind, laterAgree]
    rfl

/-- A measured run is continued alike in two contexts that agree on the derived data that its
templates require. -/
theorem MeasuredRun.extend_agree {m n : Type → Type} [Monad m] [Monad n] [DerivedData m]
    [DerivedData n] [LawfulMonad m] [LawfulMonad n] {agreement : Agreement m n}
    {state : State} {templates : List Template}
    (heads : ∀ template ∈ templates, .head ∈ template.requirements →
      agreement.SameHeads state.graph)
    (yields : ∀ template ∈ templates, .gaps ∈ template.requirements →
      agreement.SameYields state.graph) (run : MeasuredRun) (events : List Event)
    (id : TemplateId) :
    agreement.Agree (run.extend state events id templates)
      (run.extend state events id templates) := by
  induction templates generalizing run events id with
  | nil => exact agreement.agree_pure _
  | cons template rest inductionHypothesis =>
    rw [List.forall_mem_cons] at heads yields
    apply agreement.agree_bind (Template.read_agree heads.1 yields.1)
    intro result
    match result with
    | .ok values => exact inductionHypothesis heads.2 yields.2 _ _ _
    | .error (.skip reason) => exact inductionHypothesis heads.2 yields.2 _ _ _
    | .error (.error cause) => exact agreement.agree_pure _

/-- Run in any context, the templates ask for no head and no yield: a run, plain or measured, is
the same value everywhere. -/
def Extractor.AsksNothing (extractor : Extractor) (state : State) : Prop :=
  ∃ found measured, ∀ (m : Type → Type) [Monad m] [LawfulMonad m] [DerivedData m],
    (runTemplates state 0 extractor.set.templates :
        m (Logged (Except EvalError (List Found)))) = pure found ∧
      ((MeasuredRun.blank extractor.memoizes).extend state [] 0 extractor.set.templates :
        m (Logged (Except EvalError MeasuredRun))) = pure measured

theorem Extractor.asksNothing {extractor : Extractor}
    (heads : ∀ template ∈ extractor.set.templates, .head ∉ template.requirements)
    (yields : ∀ template ∈ extractor.set.templates, .gaps ∉ template.requirements)
    (state : State) : extractor.AsksNothing state := by
  -- Without a table a run is a value already, and no other context can change it, because
  -- the agreement is never asked about heads or yields.
  refine ⟨Id.run (runTemplates state 0 extractor.set.templates),
    Id.run ((MeasuredRun.blank extractor.memoizes).extend state [] 0 extractor.set.templates), ?_⟩
  intro m _ _ _
  have sameHeads : ∀ template ∈ extractor.set.templates, .head ∈ template.requirements →
      (pureAgreement m).SameHeads state.graph :=
    fun template member needed => absurd needed (heads template member)
  have sameYields : ∀ template ∈ extractor.set.templates, .gaps ∈ template.requirements →
      (pureAgreement m).SameYields state.graph :=
    fun template member needed => absurd needed (yields template member)
  exact ⟨runTemplates_agree sameHeads sameYields 0,
    MeasuredRun.extend_agree sameHeads sameYields _ _ 0⟩

/-! ## Parts of a table that are not seen -/

namespace Template

/-- The outcome of a template on a state and the table it leaves, begun with a given table. -/
def evaluateFrom (template : Template) (state : State) (memo : Memo) :
    Except Halt (List String) × Memo :=
  (template.read state : ExceptT Halt (StateM Memo) (List String)).run.run memo

variable {template : Template}

/-- Over an acyclic graph a correct table makes no difference. -/
theorem evaluateFrom_eq_evaluate {state : State} (wellFormed : state.graph.WellFormed)
    (acyclic : state.graph.Acyclic) {memo : Memo} (correct : memo.Correct state.graph)
    (template : Template) : (template.evaluateFrom state memo).1 = template.evaluate state := by
  have agree : (Memo.agreement state.graph).AgreeOrFail (template.read state)
      (template.read state) :=
    Template.read_agree (fun _ => Memo.agreement_sameHeads state.graph)
      fun _ => Memo.agreement_sameYields wellFormed acyclic
  exact (agree memo correct).1

/-- A template that does not require heads does not see those of its table. -/
theorem evaluateFrom_of_head_not_mem (unneeded : .head ∉ template.requirements) (state : State)
    (memo : Memo) :
    (template.evaluateFrom state memo).1 =
        (template.evaluateFrom state { memo with heads := ∅ }).1 ∧
      (template.evaluateFrom state memo).2.heads = memo.heads := by
  have agree : (Memo.unseen Memo.heads Memo.yields).AgreeOrFail (template.read state)
      (template.read state) :=
    Template.read_agree (fun needed => absurd needed unneeded)
      fun _ => Memo.unseen_heads_sameYields state.graph
  have unseen := agree memo { memo with heads := ∅ } rfl
  exact ⟨unseen.value_eq, unseen.part_eq⟩

/-- A template that does not require gaps does not see the yields of its table. -/
theorem evaluateFrom_of_gaps_not_mem (unneeded : .gaps ∉ template.requirements) (state : State)
    (memo : Memo) :
    (template.evaluateFrom state memo).1 =
        (template.evaluateFrom state { memo with yields := ∅ }).1 ∧
      (template.evaluateFrom state memo).2.yields = memo.yields := by
  have agree : (Memo.unseen Memo.yields Memo.heads).AgreeOrFail (template.read state)
      (template.read state) :=
    Template.read_agree (fun _ => Memo.unseen_yields_sameHeads state.graph)
      fun needed => absurd needed unneeded
  have unseen := agree memo { memo with yields := ∅ } rfl
  exact ⟨unseen.value_eq, unseen.part_eq⟩

end Template

/-! ## The gate -/

namespace Extractor

variable {options : Options} {extractor : Extractor}

theorem mem_combinedRequirements_iff (made : (ofOptions options).result = .ok extractor)
    {requirement : Requirement} :
    requirement ∈ extractor.set.combinedRequirements ↔
      ∃ template ∈ extractor.set.templates, requirement ∈ template.requirements := by
  rcases exists_templates_of_ofOptions made with ⟨templates, rfl⟩
  exact TemplateSet.mem_combinedRequirements_ofTemplates

theorem asksNothing_of_not_mem (made : (ofOptions options).result = .ok extractor)
    (noHead : .head ∉ extractor.set.combinedRequirements)
    (noGaps : .gaps ∉ extractor.set.combinedRequirements) (state : State) :
    extractor.AsksNothing state := by
  simp only [mem_combinedRequirements_iff made, not_exists, not_and] at noHead noGaps
  exact asksNothing noHead noGaps state

/-- A run that is refused a table although it is allowed has no use for one. -/
theorem asksNothing_of_refused (made : (ofOptions options).result = .ok extractor)
    (allowed : options.memoize = true) (refused : extractor.memoizes = false) (state : State) :
    extractor.AsksNothing state := by
  have unneeded : ∀ requirement : Requirement, requirement ∈ Requirements.derived →
      requirement ∉ extractor.set.combinedRequirements := by
    intro requirement derived needed
    rcases (mem_combinedRequirements_iff made).mp needed with ⟨template, member, required⟩
    have reads := Template.exists_derived_iff.mp ⟨requirement, required, derived⟩
    have memoizes := (memoizes_iff made).mpr ⟨allowed, template, member, reads⟩
    rw [refused] at memoizes
    cases memoizes
  exact asksNothing_of_not_mem made (unneeded .head (by decide)) (unneeded .gaps (by decide)) state

/-- The table is used if and only if it is allowed and some template reads derived data at a
node: then a run begins with the empty one, and otherwise it has none, and reports say so.  What a
template does not require of the table it does not see, and a run that does not require derived
data, or is refused the table although it is allowed, asks for no head and no yield. -/
theorem gate_exact (made : (ofOptions options).result = .ok extractor) (state : State) :
    (extractor.memoizes = true ↔
      options.memoize = true ∧
        ∃ template ∈ extractor.set.templates, template.ReadsDerived) ∧
      (extractor.memoizes = true →
        extractor.RunsIn state (StateM Memo) fun run => (run.run .empty).1) ∧
      (extractor.memoizes = false → extractor.RunsIn state Id Id.run) ∧
      (∀ report, (extractor.report state).result = .ok report →
        report.memoized = extractor.memoizes) ∧
      (∀ template : Template, .head ∉ template.requirements → ∀ memo : Memo,
        (template.evaluateFrom state memo).1 =
            (template.evaluateFrom state { memo with heads := ∅ }).1 ∧
          (template.evaluateFrom state memo).2.heads = memo.heads) ∧
      (∀ template : Template, .gaps ∉ template.requirements → ∀ memo : Memo,
        (template.evaluateFrom state memo).1 =
            (template.evaluateFrom state { memo with yields := ∅ }).1 ∧
          (template.evaluateFrom state memo).2.yields = memo.yields) ∧
      (.head ∉ extractor.set.combinedRequirements →
        .gaps ∉ extractor.set.combinedRequirements →
          .separator ∉ extractor.set.combinedRequirements → extractor.AsksNothing state) ∧
      (options.memoize = true → extractor.memoizes = false → extractor.AsksNothing state) :=
  ⟨memoizes_iff made, (extractor.runsIn state).1, (extractor.runsIn state).2,
    fun _ => memoized_of_report,
    fun _ unneeded => Template.evaluateFrom_of_head_not_mem unneeded state,
    fun _ unneeded => Template.evaluateFrom_of_gaps_not_mem unneeded state,
    fun noHead noGaps _ => asksNothing_of_not_mem made noHead noGaps state,
    fun allowed refused => asksNothing_of_refused made allowed refused state⟩

/-- The kind of an action is no derived data and the gate stays closed; a gap type opens it
and does not see what the table holds for heads. -/
theorem gate_exact_particleVerb :
    (∃ extractor : Extractor,
      (ofOptions { descriptors := ["s0C", "a0w"], memoize := true }).result = .ok extractor ∧
        extractor.memoizes = false ∧ extractor.RunsIn particleVerb Id Id.run ∧
          extractor.AsksNothing particleVerb) ∧
      ∃ extractor : Extractor,
        (ofOptions { descriptors := ["s0x", "s0C"], memoize := true }).result = .ok extractor ∧
          extractor.memoizes = true ∧
          (extractor.RunsIn particleVerb (StateM Memo) fun run => (run.run .empty).1) ∧
          ∃ template ∈ extractor.set.templates, ∀ memo : Memo,
            (template.evaluateFrom particleVerb memo).1 =
                (template.evaluateFrom particleVerb { memo with heads := ∅ }).1 ∧
              (template.evaluateFrom particleVerb memo).2.heads = memo.heads := by
  constructor
  · let descriptors := ["s0C", "a0w"]
    let extractor : Extractor :=
      { set := .ofTemplates (descriptors.filterMap Template.parse?), memoize := true }
    have made : (ofOptions { descriptors, memoize := true }).result = .ok extractor :=
      result_ofOptions (by decide +kernel)
    have closed : extractor.memoizes = false := by decide +kernel
    obtain ⟨_, _, anew, _, _, _, _, refused⟩ := gate_exact made particleVerb
    exact ⟨extractor, made, closed, anew closed, refused rfl closed⟩
  · let descriptors := ["s0x", "s0C"]
    let template : Template :=
      { name := "s0x", elements := [⟨.stack, 0, [], [.gapType]⟩] }
    let extractor : Extractor :=
      { set := .ofTemplates (descriptors.filterMap Template.parse?), memoize := true }
    have made : (ofOptions { descriptors, memoize := true }).result = .ok extractor :=
      result_ofOptions (by decide +kernel)
    have member : template ∈ extractor.set.templates := by decide +kernel
    have reads : template.ReadsDerived :=
      ⟨_, List.mem_singleton_self _, nofun, .gapType, List.mem_singleton_self _, by decide⟩
    obtain ⟨memoizes, withTable, _, _, unseen, _⟩ := gate_exact made particleVerb
    have opened : extractor.memoizes = true := memoizes.mpr ⟨rfl, template, member, reads⟩
    exact ⟨extractor, made, opened, withTable opened, template, member,
      unseen template (by decide)⟩

end Extractor

end TransitionFeatures
