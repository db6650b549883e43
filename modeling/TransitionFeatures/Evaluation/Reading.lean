import TransitionFeatures.Evaluation.Focus
import TransitionFeatures.Evaluation.Separator
import TransitionFeatures.Graph.Gap

/-!
# Readings

The value of one property at one focus.  At a known node every property can be asked
for, though it may be undefined there.  An action has its kind and its tag, which
may be missing; asking it for anything else is an error of the template.
-/

namespace TransitionFeatures

variable {m : Type → Type} [Monad m] [DerivedData m]

namespace Property

/-- The value of a property at a known node.  The separator properties do not depend on
the node. -/
def atKnownNode (state : State) (id : NodeId) (node : Node) :
    Property → ExceptT Fault m (Option String)
  | text => do
    return (← state.graph.headNode? id).bind Node.text?
  | partOfSpeech => do
    return (← state.graph.headNode? id).bind Node.partOfSpeech?
  | edgeTag => do
    return (← state.graph.firstInEdge? id).map Edge.tag
  | separator => do
    match ← state.separators? with
    | some [only] => return only.text?
    | _ => return none
  | separatorCount => do
    return (← state.separators?).map fun separators => toString separators.length
  | gapType => do
    return some (← state.graph.gapType id).code
  | gapLengthSum => do
    return some (toString (← state.graph.gapLengthSum id))
  | parentCount => return some (toString node.incoming.length)
  | childCount => return some (toString node.outgoing.length)
  | implicitCount => do
    return some (toString ((← state.graph.childNodes id).countP Node.isImplicit))
  | remoteCount => do
    return some (toString ((← state.graph.outEdges id).countP Edge.remote))

/-- The value of a property at a node, which is looked up whatever is asked for. -/
def atNode (state : State) (id : NodeId) (property : Property) :
    ExceptT Fault m (Option String) := do
  property.atKnownNode state id (← state.graph.node id)

/-- The value of a property at an action. -/
def atAction (action : Action) : Property → Except EvalError (Option String)
  | text => .ok (some action.kind)
  | edgeTag => .ok action.tag?
  | property => .error (.unknownProperty .actions property)

/-- The value of a property at a focus, undefined or not. -/
def at? (state : State) (focus : Focus) (property : Property) :
    ExceptT Halt m (Option String) :=
  match focus with
  | .node id => (property.atNode state id).adapt Halt.fault
  | .action action => (property.atAction action).mapError Halt.error

/-- Read a property at a focus; an undefined one skips the template. -/
def read (state : State) (focus : Focus) (property : Property) : ExceptT Halt m String := do
  match ← property.at? state focus with
  | some value => return value
  | none => throw (.skip (.undefined property))

end Property

end TransitionFeatures
