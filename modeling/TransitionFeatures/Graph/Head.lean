import TransitionFeatures.Graph.Core
import TransitionFeatures.Graph.EdgeTag

/-!
# Lexical heads

A unit is represented by one of its terminals, found by descending along the
best eligible edge of every unit on the way.  An edge is eligible if it is
primary and does not lead to an implicit unit; the best one has the least
`EdgeTag.headRank`, and of several with that rank the first.

A descent ends at a terminal, which is the head, or at a unit without an eligible
edge, which has none.  A descent that has passed as many units as the graph has
nodes and still goes on has met some unit twice, so it would go on forever.
-/

namespace TransitionFeatures

/-- Among edges, the first with the least rank. -/
def bestEdge? : List Edge → Option Edge
  | [] => none
  | edge :: rest =>
    match bestEdge? rest with
    | none => some edge
    | some best =>
      if EdgeTag.headRank edge.tag ≤ EdgeTag.headRank best.tag then some edge
      else some best

@[simp]
theorem bestEdge?_nil : bestEdge? [] = none :=
  rfl

theorem bestEdge?_eq_none_iff {edges : List Edge} :
    bestEdge? edges = none ↔ edges = [] := by
  cases edges with
  | nil => simp
  | cons edge rest =>
    unfold bestEdge?
    split
    · simp
    · split <;> simp

/-- The best edge is one of those it is chosen from. -/
theorem mem_of_bestEdge?_eq_some {edges : List Edge} {best : Edge}
    (chosen : bestEdge? edges = some best) : best ∈ edges := by
  induction edges generalizing best with
  | nil => simp at chosen
  | cons edge rest inductionHypothesis =>
    unfold bestEdge? at chosen
    split at chosen
    · rw [Option.some.inj chosen]
      exact List.mem_cons_self
    · rename_i later laterChosen
      split at chosen
      · rw [Option.some.inj chosen]
        exact List.mem_cons_self
      · rw [Option.some.inj chosen] at laterChosen
        exact List.mem_cons_of_mem edge (inductionHypothesis laterChosen)

/-- No edge ranks before the best one. -/
theorem headRank_le_of_bestEdge?_eq_some {edges : List Edge} {best : Edge}
    (chosen : bestEdge? edges = some best) {edge : Edge} (member : edge ∈ edges) :
    EdgeTag.headRank best.tag ≤ EdgeTag.headRank edge.tag := by
  induction edges generalizing best with
  | nil => simp at chosen
  | cons first rest inductionHypothesis =>
    unfold bestEdge? at chosen
    rcases List.mem_cons.mp member with rfl | member
    · split at chosen
      · exact Nat.le_of_eq (congrArg _ (congrArg _ (Option.some.inj chosen).symm))
      · split at chosen
        · exact Nat.le_of_eq (congrArg _ (congrArg _ (Option.some.inj chosen).symm))
        · rename_i worse
          rw [Option.some.inj chosen] at worse
          omega
    · split at chosen
      · rename_i nothing
        rw [bestEdge?_eq_none_iff.mp nothing] at member
        exact absurd member List.not_mem_nil
      · rename_i later laterChosen
        have laterLeast := inductionHypothesis laterChosen member
        split at chosen
        · rename_i better
          rw [Option.some.inj chosen] at better
          omega
        · rw [Option.some.inj chosen] at laterLeast
          exact laterLeast

namespace Graph

/-- Heads are looked for along primary edges to units and tokens that have a
surface realisation. -/
def isEligible (graph : Graph) (edge : Edge) : Except Fault Bool := do
  if edge.remote then return false
  return !(← graph.node edge.child).isImplicit

/-- The eligible edges of a node in creation order. -/
def eligibleEdges (graph : Graph) (id : NodeId) : Except Fault (List Edge) := do
  (← graph.outEdges id).filterM graph.isEligible

/-- The edge along which the descent leaves a unit. -/
def headEdge? (graph : Graph) (id : NodeId) : Except Fault (Option Edge) := do
  return bestEdge? (← graph.eligibleEdges id)

/-- The head of a node, passing at most the given number of units. -/
def headWithin (graph : Graph) : Nat → NodeId → Except Fault (Option NodeId)
  | 0, id => do
    if (← graph.node id).isTerminal then return some id else throw .endless
  | units + 1, id => do
    if (← graph.node id).isTerminal then return some id
    match ← graph.headEdge? id with
    | none => return none
    | some edge => graph.headWithin units edge.child

/-- A terminal is its own head. -/
theorem headWithin_of_isTerminal {graph : Graph} {id : NodeId} {node : Node}
    (found : graph.node id = .ok node) (terminal : node.isTerminal = true)
    (units : Nat) : graph.headWithin units id = .ok (some id) := by
  cases units <;> simp [headWithin, found, terminal, bind, Except.bind, pure, Except.pure]

theorem headWithin_zero_of_unit {graph : Graph} {id : NodeId} {node : Node}
    (found : graph.node id = .ok node) (unit : node.isTerminal = false) :
    graph.headWithin 0 id = .error .endless := by
  simp [headWithin, found, unit, bind, Except.bind, throw, throwThe,
    MonadExceptOf.throw]

/-- A unit has the head of the child at the end of its best edge. -/
theorem headWithin_succ_of_unit {graph : Graph} {id : NodeId} {node : Node}
    (found : graph.node id = .ok node) (unit : node.isTerminal = false)
    (units : Nat) :
    graph.headWithin (units + 1) id =
      (graph.headEdge? id).bind fun best =>
        match best with
        | none => .ok none
        | some edge => graph.headWithin units edge.child := by
  simp only [headWithin, found, unit, bind, Except.bind, pure, Except.pure]
  rfl

/-- The head terminal of a node; a unit may have none. -/
def head (graph : Graph) (id : NodeId) : Except Fault (Option NodeId) :=
  graph.headWithin graph.nodes.size id

end Graph

end TransitionFeatures
