import TransitionFeatures.Graph.Derived
import TransitionFeatures.State

/-!
# Separators

The punctuation between the two stack tops: the punctuation marks of the sentence
whose position lies strictly between the heads of the two topmost entries.  It is
undefined if there are fewer than two entries or one of the two has no head.
-/

namespace TransitionFeatures

variable {m : Type → Type} [Monad m] [DerivedData m]

/-- The node that is the head of a node. -/
def Graph.headNode? (graph : Graph) (id : NodeId) : ExceptT Fault m (Option Node) := do
  match ← DerivedData.head graph id with
  | none => return none
  | some head => return some (← graph.node head)

/-- The sentence position of the head of a node. -/
def Graph.headPosition? (graph : Graph) (id : NodeId) : ExceptT Fault m (Option Nat) := do
  return (← graph.headNode? id).bind Node.position?

/-- The punctuation marks strictly between two positions in either order, in
sentence order.  Two equal positions have nothing between them. -/
def Graph.punctuationBetween (graph : Graph) (first second : Nat) :
    Except Fault (List Node) := do
  let between := (graph.terminalsBetween? (min first second) (max first second)).getD []
  return (← between.mapM graph.node).filter Node.isPunctuation

/-- The punctuation marks between the heads of the two stack tops. -/
def State.separators? (state : State) : ExceptT Fault m (Option (List Node)) :=
  match state.stack.reverse with
  | top :: second :: _ => do
    match ← state.graph.headPosition? top with
    | none => return none
    | some first =>
      match ← state.graph.headPosition? second with
      | none => return none
      | some other => return some (← state.graph.punctuationBetween first other)
  | _ => return none

end TransitionFeatures
