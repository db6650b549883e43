import TransitionFeatures.Graph.Core

/-!
# Terminal yields

The yield of a node is the ascending list of the sentence positions below it,
each position once.  A terminal yields its own position and its outgoing edges
are not followed.  A unit yields what its primary children yield together, an
implicit one like any other.
-/

namespace TransitionFeatures

namespace Positions

/-- Enter a position into an ascending list; a position that is there already is
not entered again. -/
def insert (position : Nat) : List Nat → List Nat
  | [] => [position]
  | first :: rest =>
    if position < first then position :: first :: rest
    else if position = first then first :: rest
    else first :: insert position rest

@[simp]
theorem mem_insert {position other : Nat} {positions : List Nat} :
    other ∈ insert position positions ↔ other = position ∨ other ∈ positions := by
  induction positions with
  | nil => simp [insert]
  | cons first rest inductionHypothesis =>
    unfold insert
    split
    · simp
    · split
      · rename_i equal
        simp [equal]
      · simp only [List.mem_cons, inductionHypothesis]
        exact or_left_comm

/-- Strictly ascending, so without repetitions. -/
def Ascending (positions : List Nat) : Prop :=
  positions.Pairwise (· < ·)

theorem ascending_insert {position : Nat} {positions : List Nat}
    (ascending : Ascending positions) : Ascending (insert position positions) := by
  induction positions with
  | nil => simp [Ascending, insert]
  | cons first rest inductionHypothesis =>
    obtain ⟨least, later⟩ := List.pairwise_cons.mp ascending
    unfold insert
    split
    · rename_i before
      refine List.pairwise_cons.mpr ⟨fun other member => ?_, ascending⟩
      rcases List.mem_cons.mp member with rfl | member
      · exact before
      · exact Nat.lt_trans before (least other member)
    · split
      · exact ascending
      · refine List.pairwise_cons.mpr
          ⟨fun other member => ?_, inductionHypothesis later⟩
        rcases mem_insert.mp member with rfl | member
        · omega
        · exact least other member

/-- The ascending list of the positions in a list. -/
def ofList (positions : List Nat) : List Nat :=
  positions.foldr insert []

@[simp]
theorem mem_ofList {position : Nat} {positions : List Nat} :
    position ∈ ofList positions ↔ position ∈ positions := by
  induction positions with
  | nil => simp [ofList]
  | cons first rest inductionHypothesis =>
    simp only [ofList, List.foldr_cons, mem_insert, List.mem_cons] at *
    rw [inductionHypothesis]

theorem ascending_ofList (positions : List Nat) : Ascending (ofList positions) := by
  induction positions with
  | nil => exact List.Pairwise.nil
  | cons first rest inductionHypothesis => exact ascending_insert inductionHypothesis

end Positions

namespace Graph

/-- The edges along which the yield of a node is collected: the primary ones. -/
def primaryEdges (graph : Graph) (id : NodeId) : Except Fault (List Edge) := do
  return (← graph.outEdges id).filter fun edge => !edge.remote

/-- The yield of a node, on paths of at most the given number of nodes. -/
def yieldWithin (graph : Graph) : Nat → NodeId → Except Fault (List Nat)
  | 0, _ => throw .endless
  | depth + 1, id => do
    match (← graph.node id).position? with
    | some position => return [position]
    | none =>
      let below ← (← graph.primaryEdges id).mapM fun edge =>
        graph.yieldWithin depth edge.child
      return Positions.ofList below.flatten

@[simp]
theorem yieldWithin_zero (graph : Graph) (id : NodeId) :
    graph.yieldWithin 0 id = .error .endless :=
  rfl

/-- A terminal yields its position. -/
theorem yieldWithin_of_position? {graph : Graph} {id : NodeId} {node : Node}
    {position : Nat} (found : graph.node id = .ok node)
    (terminal : node.position? = some position) (depth : Nat) :
    graph.yieldWithin (depth + 1) id = .ok [position] := by
  simp [yieldWithin, found, terminal, bind, Except.bind, pure, Except.pure]

/-- A unit yields what its primary children yield. -/
theorem yieldWithin_of_unit {graph : Graph} {id : NodeId} {node : Node}
    (found : graph.node id = .ok node) (unit : node.position? = none) (depth : Nat) :
    graph.yieldWithin (depth + 1) id =
      (graph.primaryEdges id).bind fun edges =>
        (edges.mapM fun edge => graph.yieldWithin depth edge.child).bind fun below =>
          .ok (Positions.ofList below.flatten) := by
  simp only [yieldWithin, found, unit, bind, Except.bind, pure, Except.pure]

/-- The yield of a node.  No path without a repeated node is longer than the
number of nodes. -/
def yield (graph : Graph) (id : NodeId) : Except Fault (List Nat) :=
  graph.yieldWithin (graph.nodes.size + 1) id

end Graph

end TransitionFeatures
