import TransitionFeatures.Proofs.Graph.Memo

/-!
# What a yield holds

A position lies below a node if its terminal is reached from the node along primary edges
that leave units.  Joining the yields of the children, sorting them and dropping repetitions
leaves exactly these positions, each once and in ascending order, on whatever paths and
however often the terminals are reached.  `Graph.yield_holds_positions_below` states this for
every graph without cycles, for walks made anew and for answers from a memo table.
-/

namespace TransitionFeatures

namespace Graph

/-! ## Positions below a node -/

/-- The terminal at a position is reached from a node by descents. -/
def Covers (graph : Graph) (id : NodeId) (position : Nat) : Prop :=
  ∃ token, graph.terminals[position]? = some token ∧
    Relation.ReflTransGen graph.Descends id token

theorem Covers.lt_size {graph : Graph} {id : NodeId} {position : Nat}
    (covered : graph.Covers id position) : position < graph.terminals.size := by
  obtain ⟨token, entry, _⟩ := covered
  exact (Array.getElem?_eq_some_iff.mp entry).1

namespace WellFormed

variable {graph : Graph} (wellFormed : graph.WellFormed)

include wellFormed

theorem isToken_of_terminals {position : Nat} {token : NodeId}
    (entry : graph.terminals[position]? = some token) : graph.IsToken token := by
  obtain ⟨node, found, place⟩ := wellFormed.terminals_iff.mp entry
  exact isToken_of_position? (node_eq_ok_iff.mpr found) place

/-- Below a token there is its own position, whatever edges leave it. -/
theorem covers_token_iff {id : NodeId} {node : Node} {place position : Nat}
    (entry : graph.nodes[id]? = some node) (atPlace : node.position? = some place) :
    graph.Covers id position ↔ position = place := by
  have listed : graph.terminals[place]? = some id :=
    wellFormed.terminals_iff.mpr ⟨node, entry, atPlace⟩
  have noStep : ∀ lower, ¬ graph.Descends id lower := fun lower =>
    (wellFormed.isToken_of_terminals listed).not_descends
  simp only [Covers, Relation.reflTransGen_iff_eq noStep, exists_eq_right,
    wellFormed.terminals_iff, entry, Option.some.injEq, exists_eq_left', atPlace]
  exact eq_comm

/-- Below a unit there is what is below its primary children. -/
theorem covers_unit_iff {id : NodeId} (unit : graph.IsUnit id) {position : Nat} :
    graph.Covers id position ↔
      ∃ edge ∈ (graph.edgesFrom id).filter fun edge => !edge.remote,
        graph.Covers edge.child position := by
  constructor
  · rintro ⟨token, entry, path⟩
    rcases Relation.ReflTransGen.cases_head path with rfl | ⟨lower, step, rest⟩
    · exact absurd unit (wellFormed.isToken_of_terminals entry).not_isUnit
    · obtain ⟨_, edge, member, primary, leaves, rfl⟩ := step
      refine ⟨edge, List.mem_filter.mpr ⟨mem_edgesFrom.mpr ⟨member, leaves⟩, ?_⟩, token, entry,
        rest⟩
      rw [primary, Bool.not_false]
  · rintro ⟨edge, member, token, entry, path⟩
    obtain ⟨leaves, primary⟩ := List.mem_filter.mp member
    have step := descends_of_mem_edgesFrom unit leaves (by simpa using primary)
    exact ⟨token, entry, .head step path⟩

/-! ## Yields -/

/-- A yield that is found holds the positions below its node. -/
theorem mem_yieldWithin_iff {depth : Nat} {id : NodeId} {positions : List Nat}
    (found : graph.yieldWithin depth id = .ok positions) {position : Nat} :
    position ∈ positions ↔ graph.Covers id position := by
  induction depth generalizing id positions with
  | zero => cases found
  | succ depth inductionHypothesis =>
    obtain ⟨node, looked, atToken | ⟨noPosition, edges, yields, primary, below, rfl⟩⟩ :=
      yieldWithin_succ_eq_ok_iff.mp found
    · obtain ⟨place, atPlace, rfl⟩ := atToken
      rw [wellFormed.covers_token_iff (node_eq_ok_iff.mp looked) atPlace, List.mem_singleton]
    · have known : id < graph.nodes.size := exists_node_iff.mp ⟨node, looked⟩
      have unit : graph.IsUnit id := isUnit_of_position? looked noPosition
      rw [wellFormed.primaryEdges_eq_ok known] at primary
      cases primary
      rw [Positions.mem_ofList, List.mem_flatten, wellFormed.covers_unit_iff unit]
      constructor
      · rintro ⟨yield, yielded, member⟩
        obtain ⟨edge, edgeMember, edgeFound⟩ := (mem_iff_of_mapM_eq_ok below).mp yielded
        exact ⟨edge, edgeMember, (inductionHypothesis edgeFound).mp member⟩
      · rintro ⟨edge, edgeMember, covered⟩
        obtain ⟨yield, edgeFound⟩ := exists_mapM_eq_ok_iff.mp ⟨yields, below⟩ edge edgeMember
        exact ⟨yield, (mem_iff_of_mapM_eq_ok below).mpr ⟨edge, edgeMember, edgeFound⟩,
          (inductionHypothesis edgeFound).mpr covered⟩

end WellFormed

/-- In a graph without cycles the yield of every node is the ascending list, without
repetitions, of the positions whose terminals are the node or are reached from it along
primary edges that leave units.  A correct memo table gives the same answer. -/
theorem yield_holds_positions_below {steps : List BuildStep} {graph : Graph}
    (built : build steps = .ok graph) (acyclic : graph.Acyclic) {id : NodeId}
    (known : id < graph.nodes.size) :
    ∃ positions, graph.yield id = .ok positions ∧
      positions.Pairwise (· < ·) ∧
      (∀ position, position ∈ positions ↔
        ∃ token, graph.terminals[position]? = some token ∧
          Relation.ReflTransGen graph.Descends id token) ∧
      ∀ memo : Memo, memo.Correct graph →
        ((Memo.yield graph id).run.run memo).1 = .ok positions := by
  have wellFormed := wellFormed_of_build built
  obtain ⟨positions, found, ascending⟩ :=
    (wellFormed.yield_endsUnless known).exists_eq_ok (not_not_intro acyclic)
  refine ⟨positions, found, ascending, fun _ => wellFormed.mem_yieldWithin_iff found, ?_⟩
  intro memo correct
  exact (Memo.agreement_sameYields wellFormed acyclic id memo correct).1.trans found

/-- How a sentence is annotated whose verb is reached twice and whose particle is reached
directly and through an implicit unit, with a remote edge and an edge out of a token to the
object between the two. -/
def sharedParticleSteps : List BuildStep :=
  [.terminal "gave" "VBD", .terminal "it" "PRP", .terminal "up" "RP", .implicit, .unit,
    .edge EdgeTag.relator 4 2, .edge EdgeTag.relator 3 2, .edge EdgeTag.elaborator 4 3,
    .edge EdgeTag.center 4 0, .edge EdgeTag.center 4 0, .remote EdgeTag.participant 4 1,
    .edge EdgeTag.function 2 1]

/-- The object does not lie below the unit, and the verb and the particle count once. -/
theorem yield_holds_positions_below_sharedParticle :
    ∃ graph, build sharedParticleSteps = .ok graph ∧ graph.Acyclic ∧ 4 < graph.nodes.size ∧
      graph.yield 4 = .ok [0, 2] ∧
      ∀ position, position ∈ [0, 2] ↔ ∃ token, graph.terminals[position]? = some token ∧
        Relation.ReflTransGen graph.Descends 4 token := by
  obtain ⟨graph, built, known, yielded, down⟩ : ∃ graph,
      build sharedParticleSteps = .ok graph ∧ 4 < graph.nodes.size ∧
        graph.yield 4 = .ok [0, 2] ∧
        ∀ edge ∈ graph.edges, edge.remote = false → edge.child < edge.parent :=
    ⟨_, rfl, by decide, rfl, by decide⟩
  have acyclic := acyclic_of_child_lt_parent down
  obtain ⟨positions, found, _, below, _⟩ := yield_holds_positions_below built acyclic known
  rw [yielded] at found
  cases found
  exact ⟨graph, built, acyclic, known, yielded, below⟩

end Graph

end TransitionFeatures
