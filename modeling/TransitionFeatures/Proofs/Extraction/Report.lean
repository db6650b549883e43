import Mathlib.Data.List.Forall2
import TransitionFeatures.Proofs.Extraction.Gate

/-!
# Reports and plain runs

A measured run goes through the templates by itself and not by means of the plain run.
Without its measures it is the plain run all the same, whatever the context it is made in:
`MeasuredRun.plain_extend`.  The notes stay in step with the templates because each template
enters one: `Noted` is kept by both ways to enter a template and so holds of what a run ends
with.  A report puts the names beside the notes, and its entries without a skip are those of
the features.  `Extractor.report_agrees_with_extract` puts this together.
-/

namespace TransitionFeatures

/-! ## A measured run without its measures -/

/-- What a measured run leaves if the measures are dropped. -/
def MeasuredRun.plain (logged : Logged (Except EvalError MeasuredRun)) :
    Logged (Except EvalError (List Found)) :=
  { result := logged.result.map MeasuredRun.found, events := logged.events }

/-- A run as what follows some findings and events. -/
def Logged.after (found : List Found) (events : List Event)
    (later : Logged (Except EvalError (List Found))) : Logged (Except EvalError (List Found)) :=
  { result := later.result.map (found ++ ·), events := events ++ later.events }

theorem Logged.after_nil : Logged.after [] [] = id := by
  funext later
  rcases later with ⟨_ | _, _⟩ <;> rfl

theorem Logged.after_concat_found (found : List Found) (next : Found) (events : List Event) :
    Logged.after (found ++ [next]) events = fun later =>
      Logged.after found events { later with result := later.result.map (next :: ·) } := by
  funext later
  rcases later with ⟨_ | _, _⟩ <;> simp [after, Except.map]

theorem Logged.after_concat_event (found : List Found) (events : List Event) (event : Event) :
    Logged.after found (events ++ [event]) = fun later =>
      Logged.after found events { later with events := event :: later.events } := by
  funext later
  simp [after]

/-- In every context a measured run is continued with the findings and the events of the plain
run. -/
theorem MeasuredRun.plain_extend {m : Type → Type} [Monad m] [LawfulMonad m] [DerivedData m]
    (state : State) (run : MeasuredRun) (events : List Event) (id : TemplateId)
    (templates : List Template) :
    MeasuredRun.plain <$> (run.extend state events id templates :
        m (Logged (Except EvalError MeasuredRun))) =
      Logged.after run.found events <$> runTemplates state id templates := by
  induction templates generalizing run events id with
  | nil => simp [extend, plain, Logged.after, Except.map]
  | cons template rest inductionHypothesis =>
    rw [extend, runTemplates, map_bind, map_bind]
    apply bind_congr
    intro outcome
    cases outcome with
    | ok values =>
      let next : Found := { template := id, values }
      calc
        _ = Logged.after (run.found ++ [next]) events <$> runTemplates state (id + 1) rest :=
          inductionHypothesis (run.present id values) events (id + 1)
        _ = _ := by simp [Logged.after_concat_found, next]
    | error halt =>
      cases halt with
      | skip reason =>
        let event : Event := .skipped template.name reason
        calc
          _ = Logged.after run.found (events ++ [event]) <$> runTemplates state (id + 1) rest :=
            inductionHypothesis (run.skip reason) (events ++ [event]) (id + 1)
          _ = _ := by simp [Logged.after_concat_event, event]
      | error cause => simp [plain, Logged.after, Except.map]

namespace Extractor

/-- A measured run is the plain run as far as findings, errors and events go. -/
theorem plain_measure (extractor : Extractor) (state : State) :
    MeasuredRun.plain (extractor.measure state) = extractor.run state := by
  have alike (m : Type → Type) [Monad m] [LawfulMonad m] [DerivedData m] :
      MeasuredRun.plain <$> ((MeasuredRun.blank extractor.memoizes).extend state [] 0
          extractor.set.templates : m (Logged (Except EvalError MeasuredRun))) =
        runTemplates state 0 extractor.set.templates := by
    rw [MeasuredRun.plain_extend, MeasuredRun.blank, Logged.after_nil, id_map]
  exact Memo.map_ite_run_empty alike extractor.memoizes

/-- A report has the features of what its run has found. -/
theorem map_features_describe (extractor : Extractor) (run : MeasuredRun) :
    (extractor.describe run).map Report.features = extractor.features run.found := by
  unfold describe
  cases extractor.features run.found <;> rfl

/-- A report is the plain run as far as features, errors and events go. -/
theorem plain_report (extractor : Extractor) (state : State) :
    (extractor.report state).result.map Report.features = (extractor.extract state).result ∧
      (extractor.report state).events = (extractor.extract state).events := by
  rw [extract, ← extractor.plain_measure state, report, Logged.andThen, Logged.andThen]
  refine ⟨?_, rfl⟩
  change (Except.bind (extractor.measure state).result _).map _ =
    Except.bind ((extractor.measure state).result.map MeasuredRun.found) _
  cases (extractor.measure state).result with
  | error cause => rfl
  | ok run => exact extractor.map_features_describe run

end Extractor

/-! ## Events -/

/-- The event of a template that is skipped on a state. -/
def Template.skipEvent? (state : State) (template : Template) : Option Event :=
  match template.evaluate state with
  | .error (.skip reason) => some (.skipped template.name reason)
  | _ => none

/-- The templates before the first one in error report their skips. -/
theorem events_runTemplates (state : State) (id : TemplateId) (templates : List Template) :
    (Id.run (runTemplates state id templates)).events =
      (templates.takeWhile fun template => (template.error? state).isNone).filterMap
        (Template.skipEvent? state) := by
  induction templates generalizing id with
  | nil => rfl
  | cons template rest inductionHypothesis =>
    rw [run_runTemplates_cons]
    dsimp only
    rw [List.takeWhile_cons]
    cases outcome : template.evaluate state with
    | ok values =>
      simp [Template.error?, Template.skipEvent?, outcome, inductionHypothesis]
    | error halt =>
      cases halt with
      | skip reason =>
        simp [Template.error?, Template.skipEvent?, outcome, inductionHypothesis]
      | error cause => simp [Template.error?, outcome]

/-! ## Entries -/

/-- An entry names its template and says what came of it by itself. -/
def TemplateOutcome.Records (state : State) (template : Template) (outcome : TemplateOutcome) :
    Prop :=
  outcome.name = template.name ∧
    match template.evaluate state with
    | .ok values => outcome.skipped? = none ∧ outcome.valueCount = values.length
    | .error (.skip reason) => outcome.skipped? = some reason ∧ outcome.valueCount = 0
    | .error (.error _) => False

/-- Some notes say, under the names of their templates, what came of these by themselves. -/
def Noted (state : State) : List Template → List TemplateMetrics → Prop :=
  List.Forall₂ fun template metrics => (template.outcome metrics).Records state template

namespace Noted

variable {state : State} {templates : List Template} {notes : List TemplateMetrics}

theorem concat (noted : Noted state templates notes) {template : Template}
    {metrics : TemplateMetrics} (records : (template.outcome metrics).Records state template) :
    Noted state (templates ++ [template]) (notes ++ [metrics]) :=
  List.rel_append noted (.cons records .nil)

/-- Under the names of the templates notes are the entries of a report. -/
theorem forall₂_zipWith (noted : Noted state templates notes) :
    List.Forall₂ (TemplateOutcome.Records state) templates
      (templates.zipWith Template.outcome notes) := by
  induction noted with
  | nil => exact .nil
  | cons records _ inductionHypothesis => exact .cons records inductionHypothesis

/-- The entries have the skips of the notes. -/
theorem countP_zipWith (noted : Noted state templates notes) :
    (templates.zipWith Template.outcome notes).countP (fun outcome => outcome.skipped?.isNone) =
      notes.countP fun metrics => metrics.skipped?.isNone := by
  induction noted with
  | nil => rfl
  | cons _ _ inductionHypothesis =>
    rw [List.zipWith_cons_cons, List.countP_cons, List.countP_cons, inductionHypothesis]
    rfl

end Noted

namespace MeasuredRun

/-- What a measured run without a table does with its first template. -/
theorem run_extend_cons (state : State) (run : MeasuredRun) (events : List Event)
    (id : TemplateId) (template : Template) (rest : List Template) :
    Id.run (run.extend state events id (template :: rest)) =
      match template.evaluate state with
      | .ok values => Id.run ((run.present id values).extend state events (id + 1) rest)
      | .error (.skip reason) =>
        Id.run ((run.skip reason).extend state (events ++ [.skipped template.name reason])
          (id + 1) rest)
      | .error (.error cause) => { result := .error cause, events } := by
  rw [extend, Id.run_bind]
  unfold Template.evaluate
  generalize Id.run (template.read state).run = outcome
  rcases outcome with (reason | cause) | values <;> rfl

section Noted

variable {state : State} {run : MeasuredRun} {done : List Template}
  (noted : Noted state done run.metrics.templates)

include noted

/-- Entering a template with its values keeps a run in step. -/
theorem noted_present {template : Template} {values : List String}
    (evaluated : template.evaluate state = .ok values) (id : TemplateId) :
    Noted state (done ++ [template]) (run.present id values).metrics.templates := by
  refine noted.concat ⟨rfl, ?_⟩
  rw [evaluated]
  exact ⟨rfl, rfl⟩

/-- Entering a template that is skipped keeps a run in step. -/
theorem noted_skip {template : Template} {reason : SkipReason}
    (evaluated : template.evaluate state = .error (.skip reason)) :
    Noted state (done ++ [template]) (run.skip reason).metrics.templates := by
  refine noted.concat ⟨rfl, ?_⟩
  rw [evaluated]
  exact ⟨rfl, rfl⟩

/-- A measured run that ends has notes on all of its templates. -/
theorem noted_extend {events : List Event} {id : TemplateId} {rest : List Template}
    {final : MeasuredRun}
    (ended : (Id.run (run.extend state events id rest)).result = .ok final) :
    Noted state (done ++ rest) final.metrics.templates := by
  induction rest generalizing run done events id with
  | nil =>
    cases ended
    rw [List.append_nil]
    exact noted
  | cons template rest inductionHypothesis =>
    rw [run_extend_cons] at ended
    rw [List.append_cons]
    cases outcome : template.evaluate state with
    | ok values =>
      rw [outcome] at ended
      exact inductionHypothesis (noted_present noted outcome id) ended
    | error halt =>
      rw [outcome] at ended
      cases halt with
      | skip reason => exact inductionHypothesis (noted_skip noted outcome) ended
      | error cause => cases ended

end Noted

end MeasuredRun

/-- The entries without a skip are those of the features, in order. -/
theorem map_filterMap_feature?_eq {state : State} {templates : List Template}
    {outcomes : List TemplateOutcome}
    (entries : List.Forall₂ (TemplateOutcome.Records state) templates outcomes) :
    ((templates.filterMap (Template.feature? state)).map fun feature =>
        (feature.name, feature.values.length)) =
      (outcomes.filter fun outcome => outcome.skipped?.isNone).map fun outcome =>
        (outcome.name, outcome.valueCount) := by
  induction entries with
  | nil => rfl
  | @cons template outcome _ _ records _ inductionHypothesis =>
    obtain ⟨name, records⟩ := records
    rw [List.filterMap_cons, Template.feature?, List.filter_cons]
    cases evaluated : template.evaluate state with
    | ok values =>
      rw [evaluated] at records
      simp [records, name, inductionHypothesis]
    | error halt =>
      rw [evaluated] at records
      cases halt with
      | skip reason => simpa [records] using inductionHypothesis
      | error cause => exact records.elim

theorem RunMetrics.presentCount_add_skippedCount (metrics : RunMetrics) :
    metrics.presentCount + metrics.skippedCount = metrics.templates.length :=
  Nat.add_sub_cancel' List.countP_le_length

namespace Extractor

variable {state : State}

/-- What is noted of the templates and found of them if a run does not use a table. -/
def measureAnew (extractor : Extractor) (state : State) :
    Logged (Except EvalError MeasuredRun) :=
  Id.run ((MeasuredRun.blank extractor.memoizes).extend state [] 0 extractor.set.templates)

/-- In an acyclic graph a measured run is the same whether or not it uses a table. -/
theorem measure_eq_anew (wellFormed : state.graph.WellFormed) (acyclic : state.graph.Acyclic)
    (extractor : Extractor) : extractor.measure state = extractor.measureAnew state := by
  have agree : (Memo.agreement state.graph).Agree
      ((MeasuredRun.blank extractor.memoizes).extend state [] 0 extractor.set.templates)
      ((MeasuredRun.blank extractor.memoizes).extend state [] 0 extractor.set.templates) :=
    MeasuredRun.extend_agree (fun _ _ _ => Memo.agreement_sameHeads state.graph)
      (fun _ _ _ => Memo.agreement_sameYields wellFormed acyclic) _ _ _
  exact Memo.ite_run_empty_eq_anew agree extractor.memoizes

/-- A run with a report has the error or the features of the plain run and its events: the
skips of the templates before the first one in error.  A report that is made has one entry for
each template, in order, that says what came of it by itself; its features are those of the
templates by themselves and go with the entries without a skip, and its counts add up. -/
theorem report_agrees_with_extract (extractor : Extractor) {steps : List BuildStep}
    (built : Graph.build steps = .ok state.graph) (acyclic : state.graph.Acyclic) :
    (extractor.report state).result.map Report.features = (extractor.extract state).result ∧
      (extractor.report state).events = (extractor.extract state).events ∧
      (extractor.extract state).events =
        (extractor.set.templates.takeWhile fun template =>
          (template.error? state).isNone).filterMap (Template.skipEvent? state) ∧
      ∀ report, (extractor.report state).result = .ok report →
        List.Forall₂ (TemplateOutcome.Records state) extractor.set.templates report.outcomes ∧
        report.features = extractor.set.templates.filterMap (Template.feature? state) ∧
        ((report.features.map fun feature => (feature.name, feature.values.length)) =
          (report.outcomes.filter fun outcome => outcome.skipped?.isNone).map fun outcome =>
            (outcome.name, outcome.valueCount)) ∧
        report.presentCount = report.features.length ∧
        report.presentCount + report.skippedCount = extractor.set.templates.length := by
  have wellFormed := Graph.wellFormed_of_build built
  have plain := extractor.plain_report state
  refine ⟨plain.1, plain.2, ?_, ?_⟩
  · rw [extractor.extract_eq_anew wellFormed acyclic]
    exact events_runTemplates state 0 extractor.set.templates
  · intro report reported
    have own : report.features = extractor.set.templates.filterMap (Template.feature? state) := by
      have extracted : (extractor.extract state).result = .ok report.features := by
        rw [← plain.1, reported]
        rfl
      exact extractor.features_eq_of_extract wellFormed acyclic extracted
    obtain ⟨run, measured, described⟩ := bind_eq_ok_iff.mp reported
    rw [measure_eq_anew wellFormed acyclic] at measured
    have blank : Noted state [] (MeasuredRun.blank extractor.memoizes).metrics.templates :=
      List.Forall₂.nil
    have noted : Noted state extractor.set.templates run.metrics.templates :=
      MeasuredRun.noted_extend blank measured
    obtain ⟨features, _, rfl⟩ := describe_eq_ok_iff.mp described
    have entries := noted.forall₂_zipWith
    have paired := map_filterMap_feature?_eq entries
    rw [← own] at paired
    refine ⟨entries, own, paired, ?_, ?_⟩
    · have lengths := congrArg List.length paired
      rw [List.length_map, List.length_map, ← List.countP_eq_length_filter,
        noted.countP_zipWith] at lengths
      exact lengths.symm
    · rw [RunMetrics.presentCount_add_skippedCount]
      exact noted.length_eq.symm

/-- A template with values and one that is skipped halfway make a report; an error after the
skip stops both runs, with one event and before the last template. -/
theorem report_agrees_with_extract_particleVerb :
    let state : State := { particleVerb with actions := [{ kind := "SHIFT", tag? := none }] }
    let gaps : Template :=
      { name := "s0xy", elements := [⟨.stack, 0, [], [.gapType, .gapLengthSum]⟩] }
    let halfway : Template :=
      { name := "s0yb0w"
        elements := [⟨.stack, 0, [], [.gapLengthSum]⟩, ⟨.buffer, 0, [], [.text]⟩] }
    let wrong : Template := { name := "a0x", elements := [⟨.actions, 0, [], [.gapType]⟩] }
    let finished : Extractor := { set := .ofTemplates [gaps, halfway], memoize := true }
    let stopped : Extractor := { set := .ofTemplates [halfway, wrong, halfway], memoize := true }
    Graph.build particleVerbSteps = .ok state.graph ∧ state.graph.Acyclic ∧
      (∃ report, (finished.report state).result = .ok report ∧
        report.features = [⟨"s0xy", ["p", "1"]⟩] ∧ report.presentCount = 1 ∧
        report.presentCount + report.skippedCount = 2) ∧
      (stopped.report state).result.map Report.features = (stopped.extract state).result ∧
      (stopped.report state).events = [.skipped "s0yb0w" (.outOfRange .buffer 0)] := by
  intro state gaps halfway wrong finished stopped
  have built : Graph.build particleVerbSteps = .ok state.graph := rfl
  have acyclic : state.graph.Acyclic := Graph.acyclic_of_child_lt_parent (by decide)
  have reported : ∃ report, (finished.report state).result = .ok report := by
    rw [report, measure_eq_anew (Graph.wellFormed_of_build built) acyclic]
    exact ⟨_, rfl⟩
  obtain ⟨report, made⟩ := reported
  obtain ⟨_, own, _, present, total⟩ :=
    (finished.report_agrees_with_extract built acyclic).2.2.2 report made
  obtain ⟨sameResult, sameEvents, events, _⟩ :=
    stopped.report_agrees_with_extract built acyclic
  have features : report.features = [⟨"s0xy", ["p", "1"]⟩] := own.trans (by decide +kernel)
  refine ⟨built, acyclic, ⟨report, made, features, ?_, total⟩, sameResult, ?_⟩
  · rw [present, features]
    rfl
  · rw [sameEvents, events]
    decide +kernel

end Extractor

end TransitionFeatures
