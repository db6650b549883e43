import Mathlib.Data.List.Induction
import TransitionFeatures.Proofs.Graph.Representation

/-!
# Consistency of annotation graphs

Additions succeed as long as edges end at nodes that were added before, whatever else the
edges do: they may be loops, repeat each other, leave terminals or close cycles.  In a graph
that is made so, every node holds what was added as it; positions, the list of terminals, the
edge table and the lists of edges at the nodes tell the same story, and later additions take
nothing back: `Graph.build_consistent`.
-/

namespace TransitionFeatures

/-! ## Lists of additions -/

namespace BuildStep

/-- Whether an addition is that of a node. -/
def addsNode : BuildStep → Bool
  | terminal .. | punctuation .. | unit | implicit => true
  | edge .. | remote .. => false

/-- Whether an addition is that of a terminal. -/
def addsTerminal : BuildStep → Bool
  | terminal .. | punctuation .. => true
  | unit | implicit | edge .. | remote .. => false

/-- What an addition stores at the node that it adds; a terminal takes the given position. -/
def content? (position : Nat) : BuildStep → Option Content
  | terminal text partOfSpeech =>
    some (.token { text, partOfSpeech, punctuation := false, position })
  | punctuation text partOfSpeech =>
    some (.token { text, partOfSpeech, punctuation := true, position })
  | unit => some (.unit false)
  | implicit => some (.unit true)
  | edge .. | remote .. => none

/-- The edge that an addition enters. -/
def edge? : BuildStep → Option Edge
  | terminal .. | punctuation .. | unit | implicit => none
  | edge tag parent child => some { tag, parent, child, remote := false }
  | remote tag parent child => some { tag, parent, child, remote := true }

end BuildStep

/-- Both ends of every edge are among the nodes that were added before it. -/
def EndsKnown (steps : List BuildStep) : Prop :=
  ∀ {before step after edge}, steps = before ++ step :: after → step.edge? = some edge →
    edge.parent < before.countP BuildStep.addsNode ∧
      edge.child < before.countP BuildStep.addsNode

theorem endsKnown_append_singleton_iff {steps : List BuildStep} {last : BuildStep} :
    EndsKnown (steps ++ [last]) ↔ EndsKnown steps ∧
      ∀ {edge}, last.edge? = some edge →
        edge.parent < steps.countP BuildStep.addsNode ∧
          edge.child < steps.countP BuildStep.addsNode := by
  constructor
  · intro known
    constructor
    · rintro before step after edge rfl isEdge
      exact known (by rw [List.append_assoc, List.cons_append]) isEdge
    · exact fun isEdge => known rfl isEdge
  · rintro ⟨known, lastKnown⟩ before step after edge split isEdge
    rcases List.eq_nil_or_concat after with rfl | ⟨earlier, final, rfl⟩
    · rcases List.append_inj' split rfl with ⟨rfl, sameStep⟩
      rw [List.cons.injEq] at sameStep
      exact lastKnown (sameStep.1 ▸ isEdge)
    · rw [List.concat_eq_append, ← List.cons_append, ← List.append_assoc] at split
      exact known (List.append_inj' split rfl).1 isEdge

namespace Graph

/-- One addition succeeds if and only if it is that of a node or both ends of its edge are
there. -/
theorem exists_extend_iff {graph : Graph} {step : BuildStep} :
    (∃ next, graph.extend step = .ok next) ↔
      ∀ {edge}, step.edge? = some edge →
        edge.parent < graph.nodes.size ∧ edge.child < graph.nodes.size := by
  have connected : ∀ edge : Edge, (∃ next, graph.connect edge = .ok next) ↔
      edge.parent < graph.nodes.size ∧ edge.child < graph.nodes.size := by
    intro edge
    simp only [connect_eq_ok_iff]
    constructor
    · rintro ⟨_, parentKnown, childKnown, _⟩
      exact ⟨parentKnown, childKnown⟩
    · rintro ⟨parentKnown, childKnown⟩
      exact ⟨_, parentKnown, childKnown, rfl⟩
  cases step with
  | terminal | punctuation | unit | implicit => simp [extend, BuildStep.edge?]
  | edge | remote =>
    simp only [extend, addEdge, addRemote, BuildStep.edge?, Option.some.injEq, forall_eq']
    exact connected _

/-- An addition puts in a token or a unit without edges, or else an edge between nodes that
are there. -/
theorem extend_cases {graph next : Graph} {step : BuildStep}
    (extended : graph.extend step = .ok next) :
    (step.addsNode = true ∧ step.edge? = none ∧
      ((∃ text partOfSpeech punctuation,
          next = graph.pushToken text partOfSpeech punctuation) ∨
        ∃ implicit, next = graph.push (.unit implicit))) ∨
      ∃ edge, step.addsNode = false ∧ step.edge? = some edge ∧
        edge.parent < graph.nodes.size ∧ edge.child < graph.nodes.size ∧
          next = graph.attach edge := by
  cases step with
  | terminal | punctuation =>
    cases extended
    exact Or.inl ⟨rfl, rfl, Or.inl ⟨_, _, _, rfl⟩⟩
  | unit | implicit =>
    cases extended
    exact Or.inl ⟨rfl, rfl, Or.inr ⟨_, rfl⟩⟩
  | edge | remote =>
    exact Or.inr ⟨_, rfl, rfl, connect_eq_ok_iff.mp extended⟩

theorem build_append_eq_ok_iff {before after : List BuildStep} {final : Graph} :
    build (before ++ after) = .ok final ↔
      ∃ graph, build before = .ok graph ∧ graph.extendAll after = .ok final := by
  simp only [build, extendAll, List.foldlM_append]
  exact bind_eq_ok_iff

theorem build_append_singleton_eq_ok_iff {steps : List BuildStep} {last : BuildStep}
    {final : Graph} :
    build (steps ++ [last]) = .ok final ↔
      ∃ graph, build steps = .ok graph ∧ graph.extend last = .ok final := by
  simp only [build_append_eq_ok_iff, extendAll, List.foldlM_cons, List.foldlM_nil, bind_pure]

/-- What holds of the empty graph and is kept by every addition holds of every graph that is
built. -/
theorem build_induction {motive : List BuildStep → Graph → Prop} (nil : motive [] empty)
    (append : ∀ {steps graph last next}, motive steps graph → graph.extend last = .ok next →
      motive (steps ++ [last]) next)
    {steps : List BuildStep} {graph : Graph} (built : build steps = .ok graph) :
    motive steps graph := by
  induction steps using List.reverseRecOn generalizing graph with
  | nil =>
    cases built
    exact nil
  | append_singleton before last inductionHypothesis =>
    rcases build_append_singleton_eq_ok_iff.mp built with ⟨previous, builtBefore, extended⟩
    exact append (inductionHypothesis builtBefore) extended

/-- Nodes are numbered by the additions of nodes. -/
theorem nodes_size_of_build {steps : List BuildStep} {graph : Graph}
    (built : build steps = .ok graph) :
    graph.nodes.size = steps.countP BuildStep.addsNode := by
  refine build_induction (motive := fun steps graph =>
    graph.nodes.size = steps.countP BuildStep.addsNode) rfl ?_ built
  intro steps graph last next sizeEq extended
  rw [List.countP_append, List.countP_singleton, ← sizeEq]
  rcases extend_cases extended with ⟨addsNode, _, ⟨_, _, _, rfl⟩ | ⟨_, rfl⟩⟩ |
    ⟨edge, addsNone, _, _, _, rfl⟩
  · simp [addsNode, pushToken]
  · simp [addsNode]
  · simp [addsNone]

/-- Positions are given out by the additions of terminals. -/
theorem terminals_size_of_build {steps : List BuildStep} {graph : Graph}
    (built : build steps = .ok graph) :
    graph.terminals.size = steps.countP BuildStep.addsTerminal := by
  refine build_induction (motive := fun steps graph =>
    graph.terminals.size = steps.countP BuildStep.addsTerminal) rfl ?_ built
  intro steps graph last next sizeEq extended
  rw [List.countP_append, List.countP_singleton, ← sizeEq]
  cases last with
  | terminal | punctuation =>
    cases extended
    exact Array.size_push _
  | unit | implicit =>
    cases extended
    rfl
  | edge | remote =>
    obtain ⟨_, _, rfl⟩ := connect_eq_ok_iff.mp extended
    rfl

/-- The edge table lists the edges as they were added. -/
theorem edges_toList_of_build {steps : List BuildStep} {graph : Graph}
    (built : build steps = .ok graph) :
    graph.edges.toList = steps.filterMap BuildStep.edge? := by
  refine build_induction (motive := fun steps graph =>
    graph.edges.toList = steps.filterMap BuildStep.edge?) rfl ?_ built
  intro steps graph last next edgesEq extended
  rw [List.filterMap_append, ← edgesEq]
  rcases extend_cases extended with ⟨_, noEdge, ⟨_, _, _, rfl⟩ | ⟨_, rfl⟩⟩ |
    ⟨edge, _, isEdge, _, _, rfl⟩
  · simp [noEdge, pushToken]
  · simp [noEdge]
  · simp [isEdge]

/-- Additions succeed if and only if every edge ends at nodes that were added before it. -/
theorem exists_build_iff {steps : List BuildStep} :
    (∃ graph, build steps = .ok graph) ↔ EndsKnown steps := by
  induction steps using List.reverseRecOn with
  | nil =>
    apply iff_of_true ⟨empty, rfl⟩
    intro before step after edge split
    simp at split
  | append_singleton before last inductionHypothesis =>
    rw [endsKnown_append_singleton_iff, ← inductionHypothesis]
    simp only [build_append_singleton_eq_ok_iff]
    constructor
    · rintro ⟨final, graph, built, extended⟩
      rw [← nodes_size_of_build built]
      exact ⟨⟨graph, built⟩, exists_extend_iff.mp ⟨final, extended⟩⟩
    · rintro ⟨⟨graph, built⟩, lastKnown⟩
      rw [← nodes_size_of_build built] at lastKnown
      rcases exists_extend_iff.mpr lastKnown with ⟨final, extended⟩
      exact ⟨final, graph, built, extended⟩

/-! ## Terminals -/

/-- Whether a number is that of a terminal. -/
def isTerminalAt (graph : Graph) (id : NodeId) : Bool :=
  graph.nodes[id]?.any Node.isTerminal

theorem filter_isTerminalAt_push (graph : Graph) (content : Content) :
    (List.range (graph.push content).nodes.size).filter (graph.push content).isTerminalAt =
      (List.range graph.nodes.size).filter graph.isTerminalAt ++
        if (Node.isolated content).isTerminal then [graph.nodes.size] else [] := by
  have earlier : ∀ id ∈ List.range graph.nodes.size,
      (graph.push content).isTerminalAt id = graph.isTerminalAt id := by
    intro id member
    have bound := Nat.ne_of_lt (List.mem_range.mp member)
    simp [isTerminalAt, Array.getElem?_push, bound]
  rw [push_nodes, Array.size_push, List.range_succ, List.filter_append,
    List.filter_congr earlier]
  by_cases terminal : (Node.isolated content).isTerminal = true <;>
    simp [isTerminalAt, terminal]

@[simp]
theorem isTerminalAt_attach (graph : Graph) (edge : Edge) :
    (graph.attach edge).isTerminalAt = graph.isTerminalAt := by
  funext id
  rw [isTerminalAt, isTerminalAt, getElem?_attach_nodes]
  cases graph.nodes[id]? <;> rfl

/-- One addition keeps the list of terminals in step with the nodes. -/
theorem terminals_toList_of_extend {graph next : Graph} {step : BuildStep}
    (listed : graph.terminals.toList =
      (List.range graph.nodes.size).filter graph.isTerminalAt)
    (extended : graph.extend step = .ok next) :
    next.terminals.toList = (List.range next.nodes.size).filter next.isTerminalAt := by
  rcases extend_cases extended with ⟨_, _, ⟨text, partOfSpeech, punctuation, rfl⟩ |
    ⟨implicit, rfl⟩⟩ | ⟨edge, _, _, _, _, rfl⟩
  · let position := graph.terminals.size
    let content := Content.token { text, partOfSpeech, punctuation, position }
    calc
      (graph.pushToken text partOfSpeech punctuation).terminals.toList =
          graph.terminals.toList ++ [graph.nodes.size] := Array.toList_push
      _ = (List.range (graph.push content).nodes.size).filter
          (graph.push content).isTerminalAt := by
        rw [filter_isTerminalAt_push, listed]
        rfl
  · rw [filter_isTerminalAt_push, push_terminals, listed]
    exact (List.append_nil _).symm
  · rw [attach_size, isTerminalAt_attach, attach_terminals, listed]

/-- The list of terminals holds the terminal nodes once each in creation order. -/
theorem terminals_toList_of_build {steps : List BuildStep} {graph : Graph}
    (built : build steps = .ok graph) :
    graph.terminals.toList = (List.range graph.nodes.size).filter graph.isTerminalAt :=
  build_induction (motive := fun _ graph =>
    graph.terminals.toList = (List.range graph.nodes.size).filter graph.isTerminalAt)
    rfl terminals_toList_of_extend built

end Graph

/-- The position, the text and the part of speech of a node are there together: at words and
punctuation marks, which are not implicit. -/
theorem Node.token_iff (node : Node) :
    (node.text?.isSome = true ↔ node.position?.isSome = true) ∧
      (node.partOfSpeech?.isSome = true ↔ node.position?.isSome = true) ∧
      (node.position?.isSome = true ↔
        node.category = .word ∨ node.category = .punctuation) ∧
      (node.position?.isSome = true → node.isImplicit = false) := by
  cases node with
  | mk content outgoing incoming =>
    cases content with
    | unit implicit => simp [text?, partOfSpeech?, position?, token?, category]
    | token token =>
      cases punctuation : token.punctuation <;>
        simp [text?, partOfSpeech?, position?, token?, category, isImplicit, punctuation]

namespace Graph

/-! ## What is stored twice -/

theorem pairwise_lt_edgeIds (graph : Graph) (test : Edge → Bool) :
    (graph.edgeIds test).Pairwise (· < ·) :=
  List.pairwise_lt_range.filter _

theorem count_edgesFrom_eq_count_edgesInto (graph : Graph) (upper lower : NodeId) :
    ((graph.edgesFrom upper).map Edge.child).count lower =
      ((graph.edgesInto lower).map Edge.parent).count upper := by
  simp only [edgesFrom, edgesInto, List.count_eq_countP, List.countP_map, List.countP_filter]
  apply List.countP_congr
  intro edge _
  simp [and_comm]

/-- What is stored in several places agrees, and all numbers that are stored are those of
nodes and edges. -/
structure Consistent (graph : Graph) : Prop where
  position_iff : ∀ {id node position}, graph.node id = .ok node →
    (node.position? = some position ↔ graph.terminals[position]? = some id)
  terminals_eq :
    graph.terminals.toList = (List.range graph.nodes.size).filter graph.isTerminalAt
  token_iff : ∀ {id node}, graph.node id = .ok node →
    (node.text?.isSome = true ↔ node.position?.isSome = true) ∧
      (node.partOfSpeech?.isSome = true ↔ node.position?.isSome = true) ∧
      (node.position?.isSome = true ↔
        node.category = .word ∨ node.category = .punctuation) ∧
      (node.position?.isSome = true → node.isImplicit = false)
  mem_outgoing_iff : ∀ {id node number}, graph.node id = .ok node →
    (number ∈ node.outgoing ↔ ∃ edge, graph.edge number = .ok edge ∧ edge.parent = id)
  mem_incoming_iff : ∀ {id node number}, graph.node id = .ok node →
    (number ∈ node.incoming ↔ ∃ edge, graph.edge number = .ok edge ∧ edge.child = id)
  ascending : ∀ {id node}, graph.node id = .ok node →
    node.outgoing.Pairwise (· < ·) ∧ node.incoming.Pairwise (· < ·)
  terminal_lt : ∀ id ∈ graph.terminals, id < graph.nodes.size
  ends_lt : ∀ {number edge}, graph.edge number = .ok edge →
    edge.parent < graph.nodes.size ∧ edge.child < graph.nodes.size
  number_lt : ∀ {id node}, graph.node id = .ok node →
    ∀ number ∈ node.outgoing ++ node.incoming, number < graph.edges.size
  count_eq : ∀ {upper lower}, upper < graph.nodes.size → lower < graph.nodes.size →
    ∃ children parents, graph.children upper = .ok children ∧
      graph.parents lower = .ok parents ∧ children.count lower = parents.count upper

theorem WellFormed.consistent {graph : Graph} (wellFormed : graph.WellFormed)
    (terminalsEq :
      graph.terminals.toList = (List.range graph.nodes.size).filter graph.isTerminalAt) :
    graph.Consistent where
  position_iff {id node position} found := by
    rw [wellFormed.terminals_iff, node_eq_ok_iff.mp found]
    simp
  terminals_eq := terminalsEq
  token_iff {_ node} _ := node.token_iff
  mem_outgoing_iff found := by
    rw [wellFormed.outgoing_eq (node_eq_ok_iff.mp found), mem_edgeIds]
    simp only [decide_eq_true_eq]
  mem_incoming_iff found := by
    rw [wellFormed.incoming_eq (node_eq_ok_iff.mp found), mem_edgeIds]
    simp only [decide_eq_true_eq]
  ascending found := by
    rw [wellFormed.outgoing_eq (node_eq_ok_iff.mp found),
      wellFormed.incoming_eq (node_eq_ok_iff.mp found)]
    exact ⟨graph.pairwise_lt_edgeIds _, graph.pairwise_lt_edgeIds _⟩
  terminal_lt id member := by
    rw [← Array.mem_toList_iff, terminalsEq] at member
    exact List.mem_range.mp (List.mem_filter.mp member).1
  ends_lt found := by
    have member := Array.mem_of_getElem? (edge_eq_ok_iff.mp found)
    exact ⟨wellFormed.parent_lt _ member, wellFormed.child_lt _ member⟩
  number_lt found number member := by
    rw [wellFormed.outgoing_eq (node_eq_ok_iff.mp found),
      wellFormed.incoming_eq (node_eq_ok_iff.mp found), List.mem_append] at member
    rcases member with leaves | enters
    · exact List.mem_range.mp (List.mem_filter.mp leaves).1
    · exact List.mem_range.mp (List.mem_filter.mp enters).1
  count_eq upperKnown lowerKnown :=
    ⟨_, _, wellFormed.children_eq_ok upperKnown, wellFormed.parents_eq_ok lowerKnown,
      graph.count_edgesFrom_eq_count_edgesInto _ _⟩

/-! ## What later additions keep -/

/-- The nodes and edges of one graph are those of another under the same numbers; only the
lists of edges and of terminals may be longer there. -/
structure KeptIn (graph later : Graph) : Prop where
  node : ∀ {id node}, graph.node id = .ok node → ∃ kept, later.node id = .ok kept ∧
    kept.content = node.content ∧ node.outgoing <+: kept.outgoing ∧
      node.incoming <+: kept.incoming
  edge : ∀ {number edge}, graph.edge number = .ok edge → later.edge number = .ok edge
  terminals : graph.terminals.toList <+: later.terminals.toList

namespace KeptIn

variable {graph middle later : Graph}

theorem refl (graph : Graph) : graph.KeptIn graph where
  node found := ⟨_, found, rfl, List.prefix_rfl, List.prefix_rfl⟩
  edge found := found
  terminals := List.prefix_rfl

theorem trans (first : graph.KeptIn middle) (second : middle.KeptIn later) :
    graph.KeptIn later where
  node found := by
    rcases first.node found with ⟨inMiddle, foundMiddle, content, outgoing, incoming⟩
    rcases second.node foundMiddle with
      ⟨kept, foundLater, laterContent, laterOutgoing, laterIncoming⟩
    exact ⟨kept, foundLater, laterContent.trans content, outgoing.trans laterOutgoing,
      incoming.trans laterIncoming⟩
  edge found := second.edge (first.edge found)
  terminals := first.terminals.trans second.terminals

theorem push (graph : Graph) (content : Content) : graph.KeptIn (graph.push content) where
  node {id node} found := by
    have bound := exists_node_iff.mp ⟨node, found⟩
    have kept : (graph.push content).node id = .ok node := by
      rw [node_eq_ok_iff, push_nodes, Array.getElem?_push, if_neg (Nat.ne_of_lt bound)]
      exact node_eq_ok_iff.mp found
    exact ⟨node, kept, rfl, List.prefix_rfl, List.prefix_rfl⟩
  edge found := found
  terminals := List.prefix_rfl

theorem pushToken (graph : Graph) (text partOfSpeech : String) (punctuation : Bool) :
    graph.KeptIn (graph.pushToken text partOfSpeech punctuation) where
  node found := (push graph _).node found
  edge found := found
  terminals := by
    rw [Graph.pushToken, Array.toList_push]
    exact List.prefix_append _ _

theorem attach (graph : Graph) (edge : Edge) : graph.KeptIn (graph.attach edge) where
  node {id node} found := by
    have entry := getElem?_attach_nodes graph edge id
    rw [node_eq_ok_iff.mp found, Option.map_some] at entry
    exact ⟨_, node_eq_ok_iff.mpr entry, rfl, List.prefix_append _ _, List.prefix_append _ _⟩
  edge {number other} found := by
    have entry := edge_eq_ok_iff.mp found
    have bound := (Array.getElem?_eq_some_iff.mp entry).1
    rw [edge_eq_ok_iff, attach_edges, Array.getElem?_push, if_neg (Nat.ne_of_lt bound), entry]
  terminals := List.prefix_rfl

/-- One addition keeps what is there. -/
theorem extend {step : BuildStep} (extended : graph.extend step = .ok later) :
    graph.KeptIn later := by
  rcases extend_cases extended with ⟨_, _, ⟨_, _, _, rfl⟩ | ⟨_, rfl⟩⟩ | ⟨_, _, _, _, _, rfl⟩
  · exact pushToken graph _ _ _
  · exact push graph _
  · exact attach graph _

/-- A run of additions keeps what is there. -/
theorem extendAll {steps : List BuildStep} (extended : graph.extendAll steps = .ok later) :
    graph.KeptIn later := by
  induction steps generalizing graph with
  | nil =>
    cases extended
    exact refl _
  | cons step rest inductionHypothesis =>
    rw [extendAll_cons, bind_eq_ok_iff] at extended
    rcases extended with ⟨next, first, others⟩
    exact (extend first).trans (inductionHypothesis others)

end KeptIn

/-! ## What additions store -/

/-- Every node holds what was added as it: its number is that of the nodes added before it, and
the position of a terminal that of the terminals added before it. -/
def Stores (graph : Graph) (steps : List BuildStep) : Prop :=
  ∀ {before step after content}, steps = before ++ step :: after →
    step.content? (before.countP BuildStep.addsTerminal) = some content →
      ∃ node, graph.node (before.countP BuildStep.addsNode) = .ok node ∧ node.content = content

/-- The addition of a node puts it after the others, with the next position. -/
theorem node_of_extend {graph next : Graph} {step : BuildStep} {content : Content}
    (extended : graph.extend step = .ok next)
    (stored : step.content? graph.terminals.size = some content) :
    next.node graph.nodes.size = .ok (.isolated content) := by
  cases step with
  | terminal | punctuation | unit | implicit =>
    cases extended
    cases stored
    exact node_eq_ok_iff.mpr Array.getElem?_push_size
  | edge | remote => cases stored

/-- A node is put in with its content, and later additions keep it. -/
theorem stores_of_build {steps : List BuildStep} {graph : Graph}
    (built : build steps = .ok graph) : graph.Stores steps := by
  rintro before step after content rfl stored
  obtain ⟨middle, builtBefore, extended⟩ := build_append_eq_ok_iff.mp built
  rw [extendAll_cons, bind_eq_ok_iff] at extended
  obtain ⟨next, first, others⟩ := extended
  rw [← terminals_size_of_build builtBefore] at stored
  obtain ⟨node, found, kept, _⟩ := (KeptIn.extendAll others).node (node_of_extend first stored)
  rw [← nodes_size_of_build builtBefore]
  exact ⟨node, found, kept⟩

/-- Additions succeed if and only if edges end at nodes that were added before.  They number
the nodes and edges in the order in which they were added and store what was added, each terminal
at the next position; what they leave is consistent and kept by all later additions. -/
theorem build_consistent (steps : List BuildStep) :
    ((∃ graph, build steps = .ok graph) ↔ EndsKnown steps) ∧
      ∀ graph, build steps = .ok graph →
        graph.nodes.size = steps.countP BuildStep.addsNode ∧
        graph.Stores steps ∧
        graph.edges.toList = steps.filterMap BuildStep.edge? ∧
        graph.Consistent ∧
        ∀ later final, graph.extendAll later = .ok final → graph.KeptIn final := by
  constructor
  · exact exists_build_iff
  · intro graph built
    have consistent :=
      (wellFormed_of_build built).consistent (terminals_toList_of_build built)
    exact ⟨nodes_size_of_build built, stores_of_build built, edges_toList_of_build built,
      consistent, fun _ _ => KeptIn.extendAll⟩

/-- A loop, a repeated edge, a cycle and a remote edge out of a terminal are all entered, and the
word and the mark after it stand at their positions. -/
theorem build_consistent_loops :
    let steps : List BuildStep :=
      [.unit, .terminal "left" "VERB", .edge "L" 0 0, .edge "C" 0 1, .edge "C" 0 1,
        .punctuation "." "PUNCT", .edge "U" 0 2, .implicit, .edge "A" 3 0, .edge "A" 0 3,
        .remote "A" 1 3]
    EndsKnown steps ∧
      ∃ graph, build steps = .ok graph ∧ graph.nodes.size = 4 ∧ graph.edges.size = 7 ∧
        (∃ word, graph.node 1 = .ok word ∧ word.content = .token ⟨"left", "VERB", false, 0⟩) ∧
        (∃ mark, graph.node 2 = .ok mark ∧ mark.content = .token ⟨".", "PUNCT", true, 1⟩) ∧
        graph.Consistent ∧ ∃ final, graph.extendAll [.edge "F" 2 2] = .ok final ∧
          graph.KeptIn final := by
  intro steps
  have consistent := build_consistent steps
  have succeeds : ∃ graph, build steps = .ok graph := ⟨_, rfl⟩
  have known : EndsKnown steps := consistent.1.mp succeeds
  rcases succeeds with ⟨graph, built⟩
  rcases consistent.2 graph built with ⟨sizeEq, stores, edgesEq, isConsistent, keeps⟩
  have nodes : graph.nodes.size = 4 := sizeEq
  have edges : graph.edges.size = 7 := by
    rw [← Array.length_toList, edgesEq]
    rfl
  have extended : graph.extendAll [.edge "F" 2 2] = .ok (graph.attach ⟨"F", 2, 2, false⟩) := by
    rw [extendAll_cons, bind_eq_ok_iff]
    refine ⟨_, connect_eq_ok_iff.mpr ⟨?_, ?_, rfl⟩, rfl⟩ <;> simp [nodes]
  have word := @stores [.unit] (.terminal "left" "VERB") _ _ rfl rfl
  have mark := @stores (steps.take 5) (.punctuation "." "PUNCT") _ _ rfl rfl
  exact ⟨known, graph, built, nodes, edges, word, mark, isConsistent, _, extended,
    keeps _ _ extended⟩

end Graph

end TransitionFeatures
