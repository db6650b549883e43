import Mathlib.Data.List.Induction
import TransitionFeatures.Graph.Build
import TransitionFeatures.Proofs.Results

/-!
# Representation of annotation graphs

A graph stores its edges three times: in the edge table and in the lists of
outgoing and incoming edges of every node; it stores sentence positions twice, at
the tokens and in the list of terminals.  `Graph.WellFormed` states that these
agree.  Every graph that is built is well formed, and in a well-formed graph the
look-ups of a known node always succeed and can be read off the edge table.
-/

namespace TransitionFeatures

/-! ## Look-ups in a row -/

/-- The entries of a list that pass a test, looked up by their places. -/
theorem mapM_range_filter_eq_ok {ε α : Type} {test : α → Bool} {find : Nat → Except ε α}
    {items : List α} (found : ∀ place item, items[place]? = some item →
      find place = .ok item) :
    ((List.range items.length).filter fun place => items[place]?.any test).mapM find =
      .ok (items.filter test) := by
  induction items using List.reverseRecOn with
  | nil => rfl
  | append_singleton before last inductionHypothesis =>
    have earlier : ∀ place ∈ List.range before.length,
        (before ++ [last])[place]?.any test = before[place]?.any test := by
      intro place member
      rw [List.getElem?_append_left (List.mem_range.mp member)]
    have foundBefore : ∀ place item, before[place]? = some item →
        find place = .ok item := by
      intro place item entry
      apply found
      rw [List.getElem?_append_left (List.getElem?_eq_some_iff.mp entry).1, entry]
    have foundLast : find before.length = .ok last := by
      apply found
      simp
    rw [List.length_append, List.length_singleton, List.range_succ, List.filter_append,
      List.mapM_append, List.filter_congr earlier, inductionHypothesis foundBefore,
      List.filter_append]
    by_cases passed : test last = true
    · simp [passed, foundLast, bind, Except.bind, pure, Except.pure]
    · simp [passed, bind, Except.bind, pure, Except.pure]

namespace Graph

/-! ## Agreement of what is stored twice -/

/-- The numbers of the edges that pass a test, in creation order. -/
def edgeIds (graph : Graph) (test : Edge → Bool) : List EdgeId :=
  (List.range graph.edges.size).filter fun id => graph.edges[id]?.any test

/-- The ends of all edges are nodes, the lists of edges at the nodes hold what the
edge table says, and the list of terminals holds what the tokens say. -/
structure WellFormed (graph : Graph) : Prop where
  parent_lt : ∀ edge ∈ graph.edges, edge.parent < graph.nodes.size
  child_lt : ∀ edge ∈ graph.edges, edge.child < graph.nodes.size
  outgoing_eq : ∀ {id node}, graph.nodes[id]? = some node →
    node.outgoing = graph.edgeIds fun edge => edge.parent = id
  incoming_eq : ∀ {id node}, graph.nodes[id]? = some node →
    node.incoming = graph.edgeIds fun edge => edge.child = id
  terminals_iff : ∀ {position id}, graph.terminals[position]? = some id ↔
    ∃ node : Node, graph.nodes[id]? = some node ∧ node.position? = some position

theorem wellFormed_empty : empty.WellFormed where
  parent_lt := by simp [empty]
  child_lt := by simp [empty]
  outgoing_eq := by simp [empty]
  incoming_eq := by simp [empty]
  terminals_iff := by simp [empty]

/-- A new edge comes after those that are there. -/
theorem edgeIds_attach (graph : Graph) (edge : Edge) (test : Edge → Bool) :
    (graph.attach edge).edgeIds test =
      graph.edgeIds test ++ if test edge then [graph.edges.size] else [] := by
  have earlier : ∀ id ∈ List.range graph.edges.size,
      (graph.edges.push edge)[id]?.any test = graph.edges[id]?.any test := by
    intro id member
    rw [Array.getElem?_push, if_neg (Nat.ne_of_lt (List.mem_range.mp member))]
  unfold edgeIds
  rw [attach_edges, Array.size_push, List.range_succ, List.filter_append,
    List.filter_congr earlier]
  by_cases passed : test edge = true <;> simp [passed]

theorem edgeIds_eq_nil {graph : Graph} {test : Edge → Bool}
    (refused : ∀ edge ∈ graph.edges, test edge = false) : graph.edgeIds test = [] := by
  apply List.filter_eq_nil_iff.mpr
  intro id member
  have bound := List.mem_range.mp member
  rw [Array.getElem?_eq_getElem bound, Option.any_some,
    refused _ (Array.getElem_mem bound)]
  exact Bool.false_ne_true

theorem mem_edgeIds {graph : Graph} {test : Edge → Bool} {id : EdgeId} :
    id ∈ graph.edgeIds test ↔ ∃ edge, graph.edge id = .ok edge ∧ test edge = true := by
  simp only [edgeIds, List.mem_filter, List.mem_range, edge_eq_ok_iff, Option.any_eq_true,
    and_iff_right_iff_imp]
  rintro ⟨edge, entry, _⟩
  exact (Array.getElem?_eq_some_iff.mp entry).1

/-! ## Preservation -/

/-- The node that is added has no edges, and no edge of the table ends at it. -/
theorem WellFormed.getElem?_push {graph : Graph} (wellFormed : graph.WellFormed)
    {content : Content} {id : NodeId} {node : Node}
    (entry : (graph.push content).nodes[id]? = some node) :
    (node.outgoing = graph.edgeIds fun edge => edge.parent = id) ∧
      node.incoming = graph.edgeIds fun edge => edge.child = id := by
  rw [push_nodes, Array.getElem?_push] at entry
  by_cases new : id = graph.nodes.size
  · rw [if_pos new] at entry
    cases entry
    constructor
    · refine (edgeIds_eq_nil fun edge member => ?_).symm
      rw [decide_eq_false_iff_not, new]
      exact Nat.ne_of_lt (wellFormed.parent_lt edge member)
    · refine (edgeIds_eq_nil fun edge member => ?_).symm
      rw [decide_eq_false_iff_not, new]
      exact Nat.ne_of_lt (wellFormed.child_lt edge member)
  · rw [if_neg new] at entry
    exact ⟨wellFormed.outgoing_eq entry, wellFormed.incoming_eq entry⟩

theorem WellFormed.push_unit {graph : Graph} (wellFormed : graph.WellFormed)
    (implicit : Bool) : (graph.push (.unit implicit)).WellFormed where
  parent_lt edge member := by
    rw [push_nodes, Array.size_push]
    exact Nat.lt_succ_of_lt (wellFormed.parent_lt edge member)
  child_lt edge member := by
    rw [push_nodes, Array.size_push]
    exact Nat.lt_succ_of_lt (wellFormed.child_lt edge member)
  outgoing_eq entry := (wellFormed.getElem?_push entry).1
  incoming_eq entry := (wellFormed.getElem?_push entry).2
  terminals_iff {position id} := by
    rw [push_terminals, wellFormed.terminals_iff, push_nodes, Array.getElem?_push]
    by_cases new : id = graph.nodes.size
    · simp [new, Node.isolated, Node.position?, Node.token?]
    · rw [if_neg new]

theorem WellFormed.pushToken {graph : Graph} (wellFormed : graph.WellFormed)
    (text partOfSpeech : String) (punctuation : Bool) :
    (graph.pushToken text partOfSpeech punctuation).WellFormed where
  parent_lt edge member := by
    simp only [Graph.pushToken, push_nodes, Array.size_push]
    exact Nat.lt_succ_of_lt (wellFormed.parent_lt edge member)
  child_lt edge member := by
    simp only [Graph.pushToken, push_nodes, Array.size_push]
    exact Nat.lt_succ_of_lt (wellFormed.child_lt edge member)
  outgoing_eq entry := (wellFormed.getElem?_push entry).1
  incoming_eq entry := (wellFormed.getElem?_push entry).2
  terminals_iff {position id} := by
    simp only [Graph.pushToken, push_nodes]
    rw [Array.getElem?_push, Array.getElem?_push]
    by_cases last : position = graph.terminals.size
    · rw [if_pos last]
      by_cases new : id = graph.nodes.size
      · simp [new, last, Node.isolated, Node.position?, Node.token?]
      · have absent : ¬ graph.terminals[position]? = some id := by simp [last]
        rw [wellFormed.terminals_iff] at absent
        rw [if_neg new]
        exact ⟨fun equal => absurd (Option.some.inj equal).symm new,
          fun present => absurd present absent⟩
    · rw [if_neg last]
      by_cases new : id = graph.nodes.size
      · have absent : ¬ graph.terminals[position]? = some id := by
          rw [wellFormed.terminals_iff]
          simp [new]
        refine ⟨fun present => absurd present absent, ?_⟩
        rw [if_pos new]
        rintro ⟨node, entry, place⟩
        cases entry
        exact absurd (Option.some.inj place).symm last
      · rw [if_neg new]
        exact wellFormed.terminals_iff

/-- Entering an edge changes a node only in its two lists of edges. -/
theorem getElem?_attach_nodes (graph : Graph) (edge : Edge) (id : NodeId) :
    (graph.attach edge).nodes[id]? = graph.nodes[id]?.map fun node =>
      { node with
        outgoing := node.outgoing ++ if edge.parent = id then [graph.edges.size] else []
        incoming := node.incoming ++ if edge.child = id then [graph.edges.size] else [] } := by
  simp only [attach, Array.getElem?_modify]
  by_cases leaves : edge.parent = id <;> by_cases enters : edge.child = id <;>
    cases graph.nodes[id]? <;>
      simp [leaves, enters, Node.addOutgoing, Node.addIncoming]

theorem WellFormed.attach {graph : Graph} (wellFormed : graph.WellFormed) {edge : Edge}
    (parentKnown : edge.parent < graph.nodes.size)
    (childKnown : edge.child < graph.nodes.size) : (graph.attach edge).WellFormed where
  parent_lt other member := by
    rw [attach_size]
    rcases Array.mem_push.mp member with earlier | rfl
    · exact wellFormed.parent_lt other earlier
    · exact parentKnown
  child_lt other member := by
    rw [attach_size]
    rcases Array.mem_push.mp member with earlier | rfl
    · exact wellFormed.child_lt other earlier
    · exact childKnown
  outgoing_eq {id node} entry := by
    rw [getElem?_attach_nodes] at entry
    obtain ⟨before, beforeEntry, rfl⟩ := Option.map_eq_some_iff.mp entry
    rw [edgeIds_attach, ← wellFormed.outgoing_eq beforeEntry]
    simp
  incoming_eq {id node} entry := by
    rw [getElem?_attach_nodes] at entry
    obtain ⟨before, beforeEntry, rfl⟩ := Option.map_eq_some_iff.mp entry
    rw [edgeIds_attach, ← wellFormed.incoming_eq beforeEntry]
    simp
  terminals_iff {position id} := by
    rw [attach_terminals, wellFormed.terminals_iff, getElem?_attach_nodes]
    cases graph.nodes[id]? with
    | none => simp
    | some node => simp [Node.position?, Node.token?]

/-- One addition keeps a graph well formed. -/
theorem WellFormed.extend {graph next : Graph} (wellFormed : graph.WellFormed)
    {step : BuildStep} (extended : graph.extend step = .ok next) : next.WellFormed := by
  cases step with
  | terminal text partOfSpeech =>
    cases extended
    exact wellFormed.pushToken text partOfSpeech false
  | punctuation text partOfSpeech =>
    cases extended
    exact wellFormed.pushToken text partOfSpeech true
  | unit =>
    cases extended
    exact wellFormed.push_unit false
  | implicit =>
    cases extended
    exact wellFormed.push_unit true
  | edge tag parent child =>
    obtain ⟨parentKnown, childKnown, rfl⟩ := connect_eq_ok_iff.mp extended
    exact wellFormed.attach parentKnown childKnown
  | remote tag parent child =>
    obtain ⟨parentKnown, childKnown, rfl⟩ := connect_eq_ok_iff.mp extended
    exact wellFormed.attach parentKnown childKnown

/-- A run of additions keeps a graph well formed. -/
theorem WellFormed.extendAll {graph final : Graph} (wellFormed : graph.WellFormed)
    {steps : List BuildStep} (extended : graph.extendAll steps = .ok final) :
    final.WellFormed := by
  induction steps generalizing graph with
  | nil =>
    cases extended
    exact wellFormed
  | cons step rest inductionHypothesis =>
    rw [extendAll_cons] at extended
    cases next : graph.extend step with
    | error cause =>
      rw [next] at extended
      cases extended
    | ok middle =>
      rw [next] at extended
      exact inductionHypothesis (wellFormed.extend next) extended

/-- Every graph that is built is well formed. -/
theorem wellFormed_of_build {steps : List BuildStep} {graph : Graph}
    (built : build steps = .ok graph) : graph.WellFormed :=
  wellFormed_empty.extendAll built

/-! ## Reading a well-formed graph -/

/-- A terminal stands at one position of the sentence only. -/
theorem WellFormed.position_unique {graph : Graph} (wellFormed : graph.WellFormed)
    {position other : Nat} {id : NodeId} (entry : graph.terminals[position]? = some id)
    (otherEntry : graph.terminals[other]? = some id) : position = other := by
  obtain ⟨node, found, place⟩ := wellFormed.terminals_iff.mp entry
  obtain ⟨otherNode, otherFound, otherPlace⟩ := wellFormed.terminals_iff.mp otherEntry
  rw [found] at otherFound
  cases otherFound
  rw [place] at otherPlace
  exact Option.some.inj otherPlace

/-- The edges of the table that leave a node. -/
def edgesFrom (graph : Graph) (id : NodeId) : List Edge :=
  graph.edges.toList.filter fun edge => edge.parent = id

/-- The edges of the table that enter a node. -/
def edgesInto (graph : Graph) (id : NodeId) : List Edge :=
  graph.edges.toList.filter fun edge => edge.child = id

@[simp]
theorem mem_edgesFrom {graph : Graph} {id : NodeId} {edge : Edge} :
    edge ∈ graph.edgesFrom id ↔ edge ∈ graph.edges ∧ edge.parent = id := by
  simp [edgesFrom]

@[simp]
theorem mem_edgesInto {graph : Graph} {id : NodeId} {edge : Edge} :
    edge ∈ graph.edgesInto id ↔ edge ∈ graph.edges ∧ edge.child = id := by
  simp [edgesInto]

/-- The edges with the listed numbers are found in the table. -/
theorem mapM_edgeIds (graph : Graph) (test : Edge → Bool) :
    (graph.edgeIds test).mapM graph.edge = .ok (graph.edges.toList.filter test) := by
  have found : ∀ (place : Nat) (item : Edge), graph.edges.toList[place]? = some item →
      graph.edge place = .ok item := by
    intro place item entry
    rw [edge_eq_ok_iff, ← Array.getElem?_toList, entry]
  have looked : ((List.range graph.edges.toList.length).filter fun place =>
      graph.edges.toList[place]?.any test).mapM graph.edge =
        .ok (graph.edges.toList.filter test) := mapM_range_filter_eq_ok found
  simp only [Array.length_toList, Array.getElem?_toList] at looked
  exact looked

theorem exists_node_of_lt {graph : Graph} {id : NodeId}
    (known : id < graph.nodes.size) : ∃ node, graph.node id = .ok node :=
  exists_node_iff.mpr known

namespace WellFormed

variable {graph : Graph} (wellFormed : graph.WellFormed) {id : NodeId}
  (known : id < graph.nodes.size)

include wellFormed known

/-- The edges that leave a known node are those of the table. -/
theorem outEdges_eq_ok : graph.outEdges id = .ok (graph.edgesFrom id) := by
  obtain ⟨node, found⟩ := exists_node_of_lt known
  have outgoing := wellFormed.outgoing_eq (node_eq_ok_iff.mp found)
  simp only [outEdges, found, outgoing, bind, Except.bind]
  exact mapM_edgeIds graph _

/-- The edges that enter a known node are those of the table. -/
theorem inEdges_eq_ok : graph.inEdges id = .ok (graph.edgesInto id) := by
  obtain ⟨node, found⟩ := exists_node_of_lt known
  have incoming := wellFormed.incoming_eq (node_eq_ok_iff.mp found)
  simp only [inEdges, found, incoming, bind, Except.bind]
  exact mapM_edgeIds graph _

theorem children_eq_ok :
    graph.children id = .ok ((graph.edgesFrom id).map Edge.child) := by
  simp only [children, wellFormed.outEdges_eq_ok known, bind, Except.bind, pure,
    Except.pure]

theorem parents_eq_ok :
    graph.parents id = .ok ((graph.edgesInto id).map Edge.parent) := by
  simp only [parents, wellFormed.inEdges_eq_ok known, bind, Except.bind, pure,
    Except.pure]

theorem firstInEdge?_eq_ok :
    graph.firstInEdge? id = .ok (graph.edgesInto id).head? := by
  simp only [firstInEdge?, wellFormed.inEdges_eq_ok known, bind, Except.bind, pure,
    Except.pure]

omit known in
/-- The edges of a well-formed graph lead from known nodes to known nodes. -/
theorem child_lt_of_mem_edgesFrom {edge : Edge} (member : edge ∈ graph.edgesFrom id) :
    edge.child < graph.nodes.size :=
  wellFormed.child_lt edge (mem_edgesFrom.mp member).1

omit known in
theorem parent_lt_of_mem_edgesInto {edge : Edge} (member : edge ∈ graph.edgesInto id) :
    edge.parent < graph.nodes.size :=
  wellFormed.parent_lt edge (mem_edgesInto.mp member).1

/-- The nodes at the lower ends of the edges of a known node are found. -/
theorem exists_childNodes_eq_ok : ∃ nodes, graph.childNodes id = .ok nodes := by
  have found : ∀ child ∈ (graph.edgesFrom id).map Edge.child,
      ∃ node, graph.node child = .ok node := by
    intro child member
    obtain ⟨edge, edgeMember, rfl⟩ := List.mem_map.mp member
    exact exists_node_of_lt (wellFormed.child_lt_of_mem_edgesFrom edgeMember)
  obtain ⟨nodes, looked⟩ := exists_mapM_eq_ok_iff.mpr found
  refine ⟨nodes, ?_⟩
  simpa only [childNodes, wellFormed.children_eq_ok known, bind, Except.bind] using looked

end WellFormed

end Graph

end TransitionFeatures
