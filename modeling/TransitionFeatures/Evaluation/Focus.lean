import TransitionFeatures.Evaluation.Outcome
import TransitionFeatures.State

/-!
# Focus

An element selects an entry of its source, counted from the near end, and walks
from there.  The walk takes one step after the other and stops at the first that
is not possible.  Nodes can be left for relatives; there is no step from an
action.
-/

namespace TransitionFeatures

/-- What an element looks at. -/
inductive Focus
  | node (id : NodeId)
  | action (action : Action)
  deriving DecidableEq

/-- The entry that an element selects.  The stack and the actions count from the
end, the buffer from the front. -/
def Element.select? (element : Element) (state : State) : Option Focus :=
  match element.source with
  | .stack => state.stack.reverse[element.index]?.map .node
  | .buffer => state.buffer[element.index]?.map .node
  | .actions => state.actions.reverse[element.index]?.map .action

namespace Navigation

/-- The step to a child, given the children in edge order.  A single child is
entered by the step to the only child alone; the steps to the leftmost and
rightmost child then stay where they are. -/
def stepDown (id : NodeId) (step : Navigation) : List NodeId → Except SkipReason NodeId
  | [] => .error .noChildren
  | [child] =>
    match step with
    | onlyChild => .ok child
    | _ => .ok id
  | first :: second :: rest =>
    match step with
    | leftmostChild => .ok first
    | rightmostChild => .ok ((second :: rest).getLast (List.cons_ne_nil second rest))
    | _ => .error .ambiguousOnlyChild

/-- The step to a parent, given the parents in edge order: the first one. -/
def stepUp : List NodeId → Except SkipReason NodeId
  | [] => .error .noParent
  | first :: _ => .ok first

/-- One step from a node. -/
def move (graph : Graph) (id : NodeId) (step : Navigation) : Except Halt NodeId :=
  match step with
  | parent => do
    (stepUp (← Halt.lookUp (graph.parents id))).mapError Halt.skip
  | step => do
    (stepDown id step (← Halt.lookUp (graph.children id))).mapError Halt.skip

/-- Steps one after the other. -/
def walk (graph : Graph) (id : NodeId) (steps : List Navigation) : Except Halt NodeId :=
  steps.foldlM (move graph) id

@[simp]
theorem walk_nil (graph : Graph) (id : NodeId) : walk graph id [] = .ok id :=
  rfl

theorem walk_cons (graph : Graph) (id : NodeId) (step : Navigation)
    (steps : List Navigation) :
    walk graph id (step :: steps) =
      (move graph id step).bind fun next => walk graph next steps :=
  rfl

/-- Walking two lists of steps is walking the second from where the first leads. -/
theorem walk_append (graph : Graph) (id : NodeId) (first second : List Navigation) :
    walk graph id (first ++ second) =
      (walk graph id first).bind fun next => walk graph next second := by
  simp only [walk, List.foldlM_append]
  rfl

end Navigation

/-- What an element looks at on a state. -/
def Element.focus (element : Element) (state : State) : Except Halt Focus :=
  match element.select? state with
  | none => .error (.skip (.outOfRange element.source element.index))
  | some (.node id) => (Navigation.walk state.graph id element.navigation).map .node
  | some (.action action) =>
    match element.navigation with
    | [] => .ok (.action action)
    | step :: _ => .error (.error (.actionNavigation step))

end TransitionFeatures
