import TransitionFeatures.Proofs.Evaluation.Separator
import TransitionFeatures.Proofs.Graph.Head
import TransitionFeatures.Proofs.Graph.Yield

/-!
# Heads and yields

Heads and yields are found by two walks that pass over different edges: the walk for a head takes
one edge from each unit and none to an implicit one, the walk for a yield takes all primary edges.
The edges of the first are among those of the second, so the head of a node is one of the terminals
below it.  `Graph.head_lies_in_yield` says this of the two results, with what follows for nodes
without a yield and for the properties that are read off a head.
-/

namespace TransitionFeatures

open DerivedData

namespace Graph.WellFormed

variable {graph : Graph} (wellFormed : graph.WellFormed)

include wellFormed

/-- The descent for a head goes down. -/
theorem descends_of_headStep {upper lower : NodeId} (step : graph.HeadStep upper lower) :
    graph.Descends upper lower := by
  obtain ⟨unit, number, edge, competes, enters, _⟩ := step
  obtain ⟨entry, passed⟩ := (wellFormed.competes_iff unit.lt_size).mp competes
  have member : edge ∈ graph.edges := Array.mem_toList_iff.mp (List.mem_of_getElem? entry)
  have leaves : edge.parent = upper := of_decide_eq_true (Bool.and_eq_true_iff.mp passed).2
  exact ⟨unit, edge, member, competes.primary, leaves, enters⟩

theorem reflTransGen_descends {upper lower : NodeId}
    (path : Relation.ReflTransGen graph.HeadStep upper lower) :
    Relation.ReflTransGen graph.Descends upper lower :=
  Relation.ReflTransGen.mono (fun _ _ => wellFormed.descends_of_headStep) _ _ path

/-- A head that is found stands at a position below its node. -/
theorem exists_covers_of_head {id head : NodeId} (known : id < graph.nodes.size)
    (found : graph.head id = .ok (some head)) :
    ∃ node position, graph.node head = .ok node ∧ node.isTerminal = true ∧
      node.position? = some position ∧ graph.terminals[position]? = some head ∧
        graph.Covers id position := by
  obtain ⟨path, token⟩ := wellFormed.headEnd_of_headWithin known found
  obtain ⟨node, position, looked, terminal, place⟩ := token.exists_position
  have listed := wellFormed.terminals_iff.mpr ⟨node, node_eq_ok_iff.mp looked, place⟩
  exact ⟨node, position, looked, terminal, place, listed, head, listed,
    wellFormed.reflTransGen_descends path⟩

end Graph.WellFormed

/-- Without a head there is neither a text nor a part of speech. -/
theorem Property.value_of_head_eq_none {state : State} {id : NodeId}
    (known : id < state.graph.nodes.size) {property : Property}
    (lexical : property = .text ∨ property = .partOfSpeech)
    (found : state.graph.head id = .ok none) :
    property.value state (.node id) = .error (.skip (.undefined property)) := by
  obtain ⟨node, looked⟩ := Graph.exists_node_of_lt known
  have nothing : property.knownValue? state id node = .ok none := by
    rcases lexical with rfl | rfl
    all_goals
      rw [knownValue?, atKnownNode, run_bind, Graph.run_headNode?, found]
      rfl
  rw [value_of_node looked, nothing]
  rfl

namespace Graph

/-- In a graph without cycles every node has a yield and an answer to the question for a head, and
a head is a terminal whose position is in the yield.  A node with an empty yield has no head, and
one whose text or part of speech is defined on some state has a yield that is not empty. -/
theorem head_lies_in_yield {steps : List BuildStep} {graph : Graph}
    (built : build steps = .ok graph) (acyclic : graph.Acyclic) {id : NodeId}
    (known : id < graph.nodes.size) :
    ∃ head? positions, graph.head id = .ok head? ∧ graph.yield id = .ok positions ∧
      (∀ head, head? = some head →
        ∃ node position, graph.node head = .ok node ∧ node.isTerminal = true ∧
          node.position? = some position ∧ graph.terminals[position]? = some head ∧
            position ∈ positions) ∧
      (positions = [] → head? = none) ∧
      (∀ (state : State) (property : Property) (value : String), state.graph = graph →
        property = .text ∨ property = .partOfSpeech →
          property.value state (.node id) = .ok value → positions ≠ []) ∧
      ∀ memo : Memo, memo.Correct graph →
        ((Memo.head graph id).run.run memo).1 = .ok head? ∧
          ((Memo.yield graph id).run.run memo).1 = .ok positions := by
  have wellFormed := wellFormed_of_build built
  obtain ⟨head?, headFound, _⟩ := wellFormed.exists_head_eq_ok acyclic known
  obtain ⟨positions, yieldFound, _⟩ := wellFormed.exists_yield_eq_ok acyclic known
  have inYield : ∀ head, head? = some head →
      ∃ node position, graph.node head = .ok node ∧ node.isTerminal = true ∧
        node.position? = some position ∧ graph.terminals[position]? = some head ∧
          position ∈ positions := by
    rintro head rfl
    obtain ⟨node, position, looked, terminal, place, listed, covered⟩ :=
      wellFormed.exists_covers_of_head known headFound
    exact ⟨node, position, looked, terminal, place, listed,
      (wellFormed.mem_yieldWithin_iff yieldFound).mpr covered⟩
  have headless : positions = [] → head? = none := by
    rintro rfl
    apply Option.eq_none_iff_forall_ne_some.mpr
    intro head found
    obtain ⟨_, position, _, _, _, _, member⟩ := inYield head found
    exact List.not_mem_nil member
  refine ⟨head?, positions, headFound, yieldFound, inYield, headless, ?_, ?_⟩
  · rintro state property value rfl lexical read empty
    rw [headless empty] at headFound
    rw [Property.value_of_head_eq_none known lexical headFound] at read
    cases read
  · intro memo correct
    have sameHead := (Memo.agreement_sameHeads graph id memo correct).1
    have sameYield := (Memo.agreement_sameYields wellFormed acyclic id memo correct).1
    exact ⟨sameHead.trans headFound, sameYield.trans yieldFound⟩

/-- How "met her" is annotated when the one who met is left out, under a unit whose best edge is
remote. -/
def leftOutSteps : List BuildStep :=
  [.terminal "met" "VBD", .terminal "her" "PRP", .implicit, .unit, .remote EdgeTag.center 3 0,
    .edge EdgeTag.participant 3 2, .edge EdgeTag.participant 3 1]

/-- The head of the unit stands at the one position of its yield, although a remote edge and one to
an implicit unit come before it, and the implicit unit has neither. -/
theorem head_lies_in_yield_leftOut :
    ∃ graph, build leftOutSteps = .ok graph ∧ graph.Acyclic ∧ 3 < graph.nodes.size ∧
      graph.head 3 = .ok (some 1) ∧ graph.yield 3 = .ok [1] ∧
      (∃ node position, graph.node 1 = .ok node ∧ node.position? = some position ∧
        position ∈ [1]) ∧
      graph.yield 2 = .ok [] ∧ graph.head 2 = .ok none := by
  obtain ⟨graph, built, size, head, yielded, nothing, down⟩ : ∃ graph,
      build leftOutSteps = .ok graph ∧ graph.nodes.size = 4 ∧ graph.head 3 = .ok (some 1) ∧
        graph.yield 3 = .ok [1] ∧ graph.yield 2 = .ok [] ∧
        ∀ edge ∈ graph.edges, edge.remote = false → edge.child < edge.parent :=
    ⟨_, rfl, rfl, rfl, rfl, rfl, by decide⟩
  have acyclic := acyclic_of_child_lt_parent down
  have unitKnown : 3 < graph.nodes.size := by rw [size]; decide
  have implicitKnown : 2 < graph.nodes.size := by rw [size]; decide
  obtain ⟨_, _, headFound, yieldFound, inYield, _⟩ := head_lies_in_yield built acyclic unitKnown
  cases headFound.symm.trans head
  cases yieldFound.symm.trans yielded
  obtain ⟨node, position, looked, _, place, _, member⟩ := inYield 1 rfl
  obtain ⟨_, _, noHead, noYield, _, headless, _⟩ := head_lies_in_yield built acyclic implicitKnown
  cases noYield.symm.trans nothing
  rw [headless rfl] at noHead
  exact ⟨graph, built, acyclic, unitKnown, head, yielded, ⟨node, position, looked, place, member⟩,
    nothing, noHead⟩

end Graph

end TransitionFeatures
