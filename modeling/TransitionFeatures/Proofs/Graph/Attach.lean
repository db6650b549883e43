import TransitionFeatures.Proofs.Graph.Consistency
import TransitionFeatures.Proofs.Graph.Descent

/-!
# What a new edge changes

Entering an edge leaves every node what it holds, so tokens, units and implicit units are what
they were, and puts the edge behind those that leave its upper end already.  A walk looks at
nothing else: it goes as before as long as it leaves every node that it comes to as before.
`Graph.headWithin_attach` says this of the walk for a head, and
`Graph.WellFormed.yieldWithin_attach_of_remote` of the walk for a yield when the new edge is remote.
-/

namespace TransitionFeatures

/-! ## The best edge and one more -/

/-- One more edge is the best one only if it ranks before all that were there. -/
theorem bestEdge?_append_singleton (edges : List Edge) (edge : Edge) :
    bestEdge? (edges ++ [edge]) =
      match bestEdge? edges with
      | none => some edge
      | some best =>
        if EdgeTag.headRank best.tag ≤ EdgeTag.headRank edge.tag then some best
        else some edge := by
  induction edges with
  | nil => rfl
  | cons first rest inductionHypothesis =>
    rw [List.cons_append, bestEdge?, inductionHypothesis, bestEdge?]
    cases bestEdge? rest with
    | none => rfl
    | some later =>
      dsimp only
      split <;> split <;> grind

namespace Graph

variable (graph : Graph) (edge : Edge)

/-! ## Nodes and edges -/

theorem node_attach (id : NodeId) :
    (graph.attach edge).node id = (graph.node id).map fun node =>
      { node with
        outgoing := node.outgoing ++ if edge.parent = id then [graph.edges.size] else []
        incoming := node.incoming ++ if edge.child = id then [graph.edges.size] else [] } := by
  unfold node
  rw [getElem?_attach_nodes]
  cases graph.nodes[id]? <;> rfl

variable {graph edge}

@[simp]
theorem isUnit_attach_iff {id : NodeId} : (graph.attach edge).IsUnit id ↔ graph.IsUnit id := by
  unfold IsUnit
  rw [getElem?_attach_nodes]
  cases graph.nodes[id]? with
  | none => simp
  | some node => simp [Node.isTerminal, Node.token?]

variable (graph edge)

@[simp]
theorem eligible_attach : (graph.attach edge).eligible = graph.eligible := by
  funext other
  unfold eligible
  rw [getElem?_attach_nodes]
  cases graph.nodes[other.child]? <;> rfl

theorem edgesFrom_attach (id : NodeId) :
    (graph.attach edge).edgesFrom id =
      graph.edgesFrom id ++ if edge.parent = id then [edge] else [] := by
  rw [edgesFrom, edgesFrom, attach_edges, Array.toList_push, List.filter_append]
  by_cases leaves : edge.parent = id <;> simp [leaves]

variable {graph edge}

theorem descends_attach_iff {upper lower : NodeId} :
    (graph.attach edge).Descends upper lower ↔
      graph.Descends upper lower ∨
        graph.IsUnit upper ∧ edge.remote = false ∧ edge.parent = upper ∧ edge.child = lower := by
  simp only [Descends, isUnit_attach_iff, attach_edges, Array.mem_push, or_and_right, exists_or,
    exists_eq_left, ← and_or_left]

/-- An edge can close a cycle but not open one. -/
theorem Acyclic.of_attach (acyclic : (graph.attach edge).Acyclic) : graph.Acyclic := by
  intro id path
  refine acyclic id (Relation.TransGen.mono (fun _ _ step => ?_) _ _ path)
  exact descends_attach_iff.mpr (Or.inl step)

/-- No descent goes along a remote edge. -/
theorem Acyclic.attach_of_remote (acyclic : graph.Acyclic) (remote : edge.remote = true) :
    (graph.attach edge).Acyclic := by
  intro id path
  refine acyclic id (Relation.TransGen.mono (fun _ _ step => ?_) _ _ path)
  rcases descends_attach_iff.mp step with step | ⟨_, primary, _⟩
  · exact step
  · rw [remote] at primary
    cases primary

/-! ## Heads -/

/-- A node has the same head in two graphs. -/
def SameHead (graph other : Graph) (id : NodeId) : Prop :=
  ∃ head?, graph.head id = .ok head? ∧ other.head id = .ok head?

/-- The walk for a head goes as before if it leaves as before the units that it comes to. -/
theorem headWithin_attach {reached : NodeId → Prop}
    (left : ∀ id, reached id → graph.IsUnit id →
      (graph.attach edge).headEdge? id = graph.headEdge? id)
    (onward : ∀ id best, reached id → graph.IsUnit id → graph.headEdge? id = .ok (some best) →
      reached best.child)
    (units : Nat) {id : NodeId} (holds : reached id) :
    (graph.attach edge).headWithin units id = graph.headWithin units id := by
  induction units generalizing id with
  | zero =>
    unfold headWithin
    rw [node_attach]
    cases graph.node id <;> rfl
  | succ units inductionHypothesis =>
    cases looked : graph.node id with
    | error cause => simp [headWithin, node_attach, looked, Except.map, bind, Except.bind]
    | ok node =>
      have found : (graph.attach edge).node id = .ok _ :=
        (node_attach graph edge id).trans (by rw [looked]; rfl)
      cases terminal : node.isTerminal with
      | true =>
        rw [headWithin_of_isTerminal looked terminal, headWithin_of_isTerminal found terminal]
      | false =>
        have unit : graph.IsUnit id := ⟨node, node_eq_ok_iff.mp looked, terminal⟩
        rw [headWithin_succ_of_unit looked terminal, headWithin_succ_of_unit found terminal,
          left id holds unit]
        cases chosen : graph.headEdge? id with
        | error cause => rfl
        | ok best? =>
          cases best? with
          | none => rfl
          | some best => exact inductionHypothesis (onward id best holds unit chosen)

theorem head_attach {reached : NodeId → Prop}
    (left : ∀ id, reached id → graph.IsUnit id →
      (graph.attach edge).headEdge? id = graph.headEdge? id)
    (onward : ∀ id best, reached id → graph.IsUnit id → graph.headEdge? id = .ok (some best) →
      reached best.child)
    {id : NodeId} (holds : reached id) : (graph.attach edge).head id = graph.head id := by
  rw [head, head, attach_size]
  exact headWithin_attach left onward _ holds

namespace WellFormed

variable (wellFormed : graph.WellFormed) (parentKnown : edge.parent < graph.nodes.size)
  (childKnown : edge.child < graph.nodes.size)

include wellFormed

/-- The walk for a head comes to nodes of the graph only. -/
theorem lt_size_of_headEdge? {id : NodeId} {best : Edge} (known : id < graph.nodes.size)
    (chosen : graph.headEdge? id = .ok (some best)) : best.child < graph.nodes.size := by
  rw [wellFormed.headEdge?_eq_ok known, Except.ok.injEq] at chosen
  have member := (List.mem_filter.mp (mem_of_bestEdge?_eq_some chosen)).1
  exact wellFormed.child_lt_of_mem_edgesFrom member

include parentKnown childKnown

/-- The new edge takes part in the choice at its upper end if heads are looked for along it. -/
theorem headEdge?_attach {id : NodeId} (known : id < graph.nodes.size) :
    (graph.attach edge).headEdge? id =
      .ok (bestEdge? ((graph.edgesFrom id).filter graph.eligible ++
        if edge.parent = id ∧ graph.eligible edge = true then [edge] else [])) := by
  have grown := wellFormed.attach parentKnown childKnown
  rw [← attach_size graph edge] at known
  rw [grown.headEdge?_eq_ok known, edgesFrom_attach, eligible_attach, List.filter_append]
  by_cases leaves : edge.parent = id <;> by_cases eligible : graph.eligible edge = true <;>
    simp [leaves, eligible]

/-- Nothing changes where the new edge does not leave, or if heads are not looked for along it. -/
theorem headEdge?_attach_eq_self {id : NodeId} (known : id < graph.nodes.size)
    (apart : ¬ (edge.parent = id ∧ graph.eligible edge = true)) :
    (graph.attach edge).headEdge? id = graph.headEdge? id := by
  rw [wellFormed.headEdge?_attach parentKnown childKnown known, if_neg apart, List.append_nil,
    wellFormed.headEdge?_eq_ok known]

/-! ## Yields -/

variable (remote : edge.remote = true)

include remote

theorem primaryEdges_attach_of_remote {id : NodeId} (known : id < graph.nodes.size) :
    (graph.attach edge).primaryEdges id = graph.primaryEdges id := by
  have grown := wellFormed.attach parentKnown childKnown
  rw [wellFormed.primaryEdges_eq_ok known]
  rw [← attach_size graph edge] at known
  rw [grown.primaryEdges_eq_ok known, edgesFrom_attach, List.filter_append]
  by_cases leaves : edge.parent = id <;> simp [leaves, remote]

/-- The walk for a yield does not see a remote edge. -/
theorem yieldWithin_attach_of_remote (depth : Nat) {id : NodeId}
    (known : id < graph.nodes.size) :
    (graph.attach edge).yieldWithin depth id = graph.yieldWithin depth id := by
  induction depth generalizing id with
  | zero => rfl
  | succ depth inductionHypothesis =>
    obtain ⟨node, looked⟩ := exists_node_of_lt known
    have found : (graph.attach edge).node id = .ok _ :=
      (node_attach graph edge id).trans (by rw [looked]; rfl)
    cases place : node.position? with
    | some position =>
      rw [yieldWithin_of_position? looked place, yieldWithin_of_position? found place]
    | none =>
      have below : ∀ other ∈ (graph.edgesFrom id).filter fun edge => !edge.remote,
          (graph.attach edge).yieldWithin depth other.child =
            graph.yieldWithin depth other.child := fun other member =>
        inductionHypothesis
          (wellFormed.child_lt_of_mem_edgesFrom (List.mem_filter.mp member).1)
      rw [yieldWithin_of_unit looked place, yieldWithin_of_unit found place,
        wellFormed.primaryEdges_attach_of_remote parentKnown childKnown remote known,
        wellFormed.primaryEdges_eq_ok known]
      simp only [Except.bind, mapM_congr below]

theorem yield_attach_of_remote {id : NodeId} (known : id < graph.nodes.size) :
    (graph.attach edge).yield id = graph.yield id := by
  rw [yield, yield, attach_size]
  exact wellFormed.yieldWithin_attach_of_remote parentKnown childKnown remote _ known

end WellFormed

end Graph

end TransitionFeatures
