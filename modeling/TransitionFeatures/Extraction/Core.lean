import TransitionFeatures.Evaluation.Core
import TransitionFeatures.Graph.Memo
import TransitionFeatures.Template.Set

/-!
# Feature extraction

An extractor runs the templates of a set on one state, in order.  A run finds the
values of templates by number and reports an event for each template that is skipped,
and the first template that is in error ends it.  If the extractor may keep derived
data and some template asks for it, all templates of a run share one memo table; a run
begins with the empty one.  Features are made of what a run has found: each has the
name of the template that is looked up under its number.
-/

namespace TransitionFeatures

/-- A template that has values on a state, and the values. -/
structure Feature where
  name : String
  values : List String
  deriving DecidableEq

/-- The text under which a classifier knows a feature. -/
def Feature.key (feature : Feature) : String :=
  feature.name ++ "=" ++ "|".intercalate feature.values

/-- A template set and whether its runs may keep derived data. -/
structure Extractor where
  set : TemplateSet
  memoize : Bool
  deriving DecidableEq

/-- The requirements that make keeping derived data worthwhile. -/
def Requirements.derived : Requirements :=
  .ofList [.head, .gaps, .separator]

/-- A template that has values on a state, by its number, and the values. -/
structure Found where
  template : TemplateId
  values : List String
  deriving DecidableEq

section Run

variable {m : Type → Type} [Monad m] [DerivedData m]

/-- Run templates in order, of which the first one has a given number. -/
def runTemplates (state : State) :
    TemplateId → List Template → m (Logged (Except EvalError (List Found)))
  | _, [] => return { result := .ok [], events := [] }
  | id, template :: rest => do
    match ← (template.read state).run with
    | .ok values =>
      let later ← runTemplates state (id + 1) rest
      return { later with result := later.result.map ({ template := id, values } :: ·) }
    | .error (.skip reason) =>
      let later ← runTemplates state (id + 1) rest
      return { later with events := .skipped template.name reason :: later.events }
    | .error (.error cause) => return { result := .error cause, events := [] }

@[simp]
theorem runTemplates_nil (state : State) (id : TemplateId) :
    (runTemplates state id [] : m (Logged (Except EvalError (List Found)))) =
      pure { result := .ok [], events := [] } :=
  rfl

end Run

namespace Extractor

/-- Whether runs use a memo table. -/
def memoizes (extractor : Extractor) : Bool :=
  extractor.memoize && extractor.set.combinedRequirements.meets .derived

/-- What the templates find on a state. -/
def run (extractor : Extractor) (state : State) : Logged (Except EvalError (List Found)) :=
  if extractor.memoizes then
    ((runTemplates state 0 extractor.set.templates : StateM Memo _).run .empty).1
  else
    Id.run (runTemplates state 0 extractor.set.templates)

/-- What is found becomes a feature under the name of its template. -/
def feature (extractor : Extractor) (found : Found) : Except Fault Feature := do
  return { name := (← extractor.set.template found.template).name, values := found.values }

/-- The features of all that is found in a run. -/
def features (extractor : Extractor) (found : List Found) : Except EvalError (List Feature) :=
  (found.mapM extractor.feature).mapError EvalError.fault

/-- The features of a state. -/
def extract (extractor : Extractor) (state : State) :
    Logged (Except EvalError (List Feature)) :=
  (extractor.run state).andThen extractor.features

end Extractor

end TransitionFeatures
