import TransitionFeatures.Extraction.Core

/-!
# Extraction reports

A run can also be measured: then it notes for every template, in order, the reason if it
was skipped and the number of its values.  A report holds the features and the counts of
such a run, and the names of the templates beside what was noted of them.
-/

namespace TransitionFeatures

/-- What a run notes of one template. -/
structure TemplateMetrics where
  skipped? : Option SkipReason
  valueCount : Nat
  deriving DecidableEq

/-- Whether a run uses a memo table, and what it notes of its templates in order. -/
structure RunMetrics where
  memoized : Bool
  templates : List TemplateMetrics
  deriving DecidableEq

namespace RunMetrics

/-- The number of templates that had values. -/
def presentCount (metrics : RunMetrics) : Nat :=
  metrics.templates.countP fun template => template.skipped?.isNone

/-- The number of templates that were skipped. -/
def skippedCount (metrics : RunMetrics) : Nat :=
  metrics.templates.length - metrics.presentCount

end RunMetrics

/-- What a run has found and noted. -/
structure MeasuredRun where
  found : List Found
  metrics : RunMetrics
  deriving DecidableEq

namespace MeasuredRun

/-- A run that has not begun. -/
def blank (memoized : Bool) : MeasuredRun :=
  { found := [], metrics := { memoized, templates := [] } }

/-- Note what became of the next template. -/
def note (run : MeasuredRun) (template : TemplateMetrics) : MeasuredRun :=
  { run with metrics := { run.metrics with templates := run.metrics.templates ++ [template] } }

/-- Enter the values of the template of a given number. -/
def present (run : MeasuredRun) (id : TemplateId) (values : List String) : MeasuredRun :=
  { run.note { skipped? := none, valueCount := values.length } with
    found := run.found ++ [{ template := id, values }] }

/-- Enter that a template was skipped. -/
def skip (run : MeasuredRun) (reason : SkipReason) : MeasuredRun :=
  run.note { skipped? := some reason, valueCount := 0 }

variable {m : Type → Type} [Monad m] [DerivedData m]

/-- Continue a run, and the events so far, over templates in order, of which the first one
has a given number. -/
def extend (state : State) (run : MeasuredRun) (events : List Event) :
    TemplateId → List Template → m (Logged (Except EvalError MeasuredRun))
  | _, [] => return { result := .ok run, events }
  | id, template :: rest => do
    match ← (template.read state).run with
    | .ok values => (run.present id values).extend state events (id + 1) rest
    | .error (.skip reason) =>
      (run.skip reason).extend state (events ++ [.skipped template.name reason]) (id + 1) rest
    | .error (.error cause) => return { result := .error cause, events }

end MeasuredRun

/-- What became of one template in a run. -/
structure TemplateOutcome where
  name : String
  skipped? : Option SkipReason
  valueCount : Nat
  deriving DecidableEq

/-- What is noted of a template, under its name. -/
def Template.outcome (template : Template) (metrics : TemplateMetrics) : TemplateOutcome :=
  { name := template.name, skipped? := metrics.skipped?, valueCount := metrics.valueCount }

/-- The features of a run and what became of each template. -/
structure Report where
  memoized : Bool
  presentCount : Nat
  skippedCount : Nat
  outcomes : List TemplateOutcome
  features : List Feature
  deriving DecidableEq

namespace Extractor

/-- What the templates find on a state, with what is noted of them. -/
def measure (extractor : Extractor) (state : State) : Logged (Except EvalError MeasuredRun) :=
  let blank := MeasuredRun.blank extractor.memoizes
  if extractor.memoizes then
    ((blank.extend state [] 0 extractor.set.templates : StateM Memo _).run .empty).1
  else
    Id.run (blank.extend state [] 0 extractor.set.templates)

/-- The report on a measured run: the templates go with what was noted of them in order. -/
def describe (extractor : Extractor) (run : MeasuredRun) : Except EvalError Report := do
  let features ← extractor.features run.found
  return {
    memoized := run.metrics.memoized
    presentCount := run.metrics.presentCount
    skippedCount := run.metrics.skippedCount
    outcomes := extractor.set.templates.zipWith Template.outcome run.metrics.templates
    features }

/-- The features of a state with a report on every template. -/
def report (extractor : Extractor) (state : State) : Logged (Except EvalError Report) :=
  (extractor.measure state).andThen extractor.describe

end Extractor

end TransitionFeatures
