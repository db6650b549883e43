import TransitionFeatures.Graph.Core
import TransitionFeatures.Template.Core

/-!
# Outcomes of an evaluation

A template that is evaluated on a parser state gives its values, or is skipped
because the state does not have what it names, or is at fault itself because it
asks for something its source never provides.  `Halt` holds the two ways in which
an evaluation stops early.
-/

namespace TransitionFeatures

/-- Why a template has no values on a state. -/
inductive SkipReason
  /-- The index is not below the length of the source. -/
  | outOfRange (source : Source) (index : Nat)
  /-- A step to the parent of a node without incoming edges. -/
  | noParent
  /-- A step to a child of a node without outgoing edges. -/
  | noChildren
  /-- A step to the only child of a node with several outgoing edges. -/
  | ambiguousOnlyChild
  /-- The property has no value at the focus. -/
  | undefined (property : Property)
  deriving DecidableEq

/-- The text of a skip reason in reports. -/
def SkipReason.description : SkipReason → String
  | outOfRange source index =>
    "OutOfRange \x7b source: " ++ source.name ++ ", index: " ++ toString index ++ " \x7d"
  | noParent => "NoParent"
  | noChildren => "NoChildren"
  | ambiguousOnlyChild => "AmbiguousOnlyChild"
  | undefined property => "Undefined(" ++ property.name ++ ")"

/-- What is wrong with a template or with what it is evaluated on. -/
inductive EvalError
  /-- The source does not provide the property on any state. -/
  | unknownProperty (source : Source) (property : Property)
  /-- There is no step from an action. -/
  | actionNavigation (step : Navigation)
  /-- A look-up or a walk could not be carried out. -/
  | fault (cause : Fault)
  deriving DecidableEq

/-- The text of a fault. -/
def Fault.message : Fault → String
  | unknownNode node => "Unknown node: " ++ toString node
  | unknownEdge edge => "Unknown edge: " ++ toString edge
  | unknownTemplate template => "Unknown template: " ++ toString template
  | endless => "Primary edges form a cycle"
  | unordered earlier later =>
    "Positions out of order: " ++ toString earlier ++ ", " ++ toString later

/-- The text of an evaluation error. -/
def EvalError.message : EvalError → String
  | unknownProperty source property =>
    "Unknown " ++ source.name ++ " property: " ++ String.singleton property.code
  | actionNavigation step =>
    "Navigation '" ++ String.singleton step.code ++ "' is not defined for actions"
  | fault cause => cause.message

/-- An evaluation that stops before it has all values. -/
inductive Halt
  | skip (reason : SkipReason)
  | error (error : EvalError)
  deriving DecidableEq

/-- A fault stops an evaluation as an error. -/
def Halt.fault (cause : Fault) : Halt :=
  .error (.fault cause)

/-- A look-up made in the course of an evaluation. -/
def Halt.lookUp {α : Type} (found : Except Fault α) : Except Halt α :=
  found.mapError Halt.fault

@[simp]
theorem Halt.lookUp_ok {α : Type} (value : α) : lookUp (.ok value) = .ok value :=
  rfl

@[simp]
theorem Halt.lookUp_error {α : Type} (cause : Fault) :
    (lookUp (.error cause) : Except Halt α) = .error (.fault cause) :=
  rfl

end TransitionFeatures
